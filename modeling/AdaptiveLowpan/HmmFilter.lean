import AdaptiveLowpan.ForwardFilter
import AdaptiveLowpan.HmmModel
import AdaptiveLowpan.RecoveryRule
import Mathlib.Probability.Distributions.Gaussian.Real

/-! # The probabilities as a forward filter

In exact arithmetic a step multiplies the probabilities that it carries forward by the
normal densities of the observation: the shift of the logarithms cancels, and so does the
value that π is given. Over several steps they are those of the paths of the chain. -/

namespace AdaptiveLowpan
open CDouble ProbabilityVectors ForwardFilter ProbabilityTheory

instance : Fintype AdaptiveMetric where
  elems := ⟨AdaptiveMetric.all, by decide⟩
  complete := by
    intro metric
    cases metric <;> decide

noncomputable def Hmm.floorVariance (hmm : Hmm ℝ) (state : AdaptiveState)
    (metric : AdaptiveMetric) : ℝ :=
  max hmm.minVariance (hmm.emissionVariance state metric)

/-- The density of an observation in a state: its metrics are independent and normal. -/
noncomputable def Hmm.density (hmm : Hmm ℝ) (observation : NetworkMetrics ℝ)
    (state : AdaptiveState) : ℝ :=
  ∏ metric, gaussianPDFReal (hmm.emissionMean state metric)
    (hmm.floorVariance state metric).toNNReal (observation metric)

noncomputable def Hmm.kernel (hmm : Hmm ℝ) (observation : NetworkMetrics ℝ)
    (source target : AdaptiveState) : ℝ :=
  hmm.transition source target * hmm.density observation target

section Density

variable [MathFunctions]

theorem twoPi_pos : (0 : ℝ) < twoPi := by
  rw [twoPi, lit_real, lit_real]
  norm_num

theorem emissionLogProbability_eq (hmm : Hmm ℝ) (state : AdaptiveState)
    (observation : NetworkMetrics ℝ) :
    emissionLogProbability hmm state observation = ∑ metric, (-1 / 2 : ℝ) *
      (log (twoPi * hmm.floorVariance state metric) +
        (observation metric - hmm.emissionMean state metric) ^ 2 /
          hmm.floorVariance state metric) := by
  have hfloor (metric : AdaptiveMetric) :
      (if hmm.emissionVariance state metric < hmm.minVariance then hmm.minVariance
        else hmm.emissionVariance state metric) = hmm.floorVariance state metric := by
    rw [Hmm.floorVariance]
    split
    · rename_i hlt
      exact (max_eq_left hlt.le).symm
    · rename_i hnot
      exact (max_eq_right (not_lt.mp hnot)).symm
  have hhalf : (lit (-1 / 2) : ℝ) = -1 / 2 := by
    rw [lit_real]
    norm_num
  have hzero : (lit 0 : ℝ) = 0 := Rat.cast_zero
  rw [emissionLogProbability]
  simp only [hfloor, hhalf, hzero, ← sq]
  have hfold : (AdaptiveMetric.all.map fun metric => (-1 / 2 : ℝ) *
      (log (twoPi * hmm.floorVariance state metric) +
        (observation metric - hmm.emissionMean state metric) ^ 2 /
          hmm.floorVariance state metric)).sum = _ := List.sum_eq_foldl
  rw [List.foldl_map] at hfold
  exact hfold.symm

end Density

/-- One factor of the density, with another constant in the place of `2π`. -/
theorem exp_normal {tau variance : ℝ} (htau : 0 < tau) (hvariance : 0 < variance) (mean x : ℝ) :
    Real.exp (-1 / 2 * (Real.log (tau * variance) + (x - mean) ^ 2 / variance)) =
      √(2 * Real.pi / tau) * gaussianPDFReal mean variance.toNNReal x := by
  have hpos : 0 < tau * variance := mul_pos htau hvariance
  have hroot : Real.exp (-1 / 2 * Real.log (tau * variance)) = (√(tau * variance))⁻¹ := by
    rw [← Real.exp_log (Real.sqrt_pos.mpr hpos), ← Real.exp_neg, Real.log_sqrt hpos.le]
    congr 1
    ring
  have hconstant : (√(tau * variance))⁻¹ =
      √(2 * Real.pi / tau) * (√(2 * Real.pi * variance))⁻¹ := by
    have hcancel : 2 * Real.pi / tau = 2 * Real.pi * variance / (tau * variance) := by
      field_simp
    have hne : √(2 * Real.pi * variance) ≠ 0 := by positivity
    rw [hcancel, Real.sqrt_div (by positivity), div_mul_eq_mul_div, mul_inv_cancel₀ hne, one_div]
  rw [gaussianPDFReal, Real.coe_toNNReal _ hvariance.le, mul_add, Real.exp_add, hroot, hconstant,
    mul_assoc]
  congr 2
  field_simp

section Filter

variable [MathFunctions] {hmm : Hmm ℝ} {observation : NetworkMetrics ℝ}

theorem exp_emissionLogProbability (hlog : ∀ x : ℝ, log x = Real.log x)
    (hmin : 0 < hmm.minVariance) (state : AdaptiveState) (observation : NetworkMetrics ℝ) :
    Real.exp (emissionLogProbability hmm state observation) =
      √(2 * Real.pi / twoPi) ^ Fintype.card AdaptiveMetric * hmm.density observation state := by
  rw [emissionLogProbability_eq, Real.exp_sum, Hmm.density, ← Finset.card_univ,
    ← Finset.prod_const, ← Finset.prod_mul_distrib]
  refine Finset.prod_congr rfl fun metric _ => ?_
  rw [hlog]
  exact exp_normal twoPi_pos (hmin.trans_le (le_max_left _ _)) _ _

noncomputable def Hmm.weights (hmm : Hmm ℝ) (observation : NetworkMetrics ℝ) : StateTable ℝ :=
  fun j => stateSum (fun i => hmm.probability i * hmm.transition i j) *
    exp (emissionLogProbability hmm j observation -
      AdaptiveState.all.foldl (fun best j => if emissionLogProbability hmm j observation > best then
        emissionLogProbability hmm j observation else best) (-dblMax))

theorem posterior_eq_normalize : posterior hmm observation = normalize (hmm.weights observation) :=
  rfl

theorem weights_eq (hexp : ∀ x : ℝ, exp x = Real.exp x) (hlog : ∀ x : ℝ, log x = Real.log x)
    (hmin : 0 < hmm.minVariance) (observation : NetworkMetrics ℝ) :
    ∃ c > 0, hmm.weights observation =
      fun j => c * pushforward (hmm.kernel observation) hmm.probability j := by
  have hroot : 0 < √(2 * Real.pi / twoPi) :=
    Real.sqrt_pos.mpr (div_pos (by positivity) twoPi_pos)
  refine ⟨√(2 * Real.pi / twoPi) ^ Fintype.card AdaptiveMetric * (Real.exp
    (AdaptiveState.all.foldl (fun best j => if emissionLogProbability hmm j observation > best then
      emissionLogProbability hmm j observation else best) (-dblMax)))⁻¹,
    mul_pos (pow_pos hroot _) (inv_pos.mpr (Real.exp_pos _)), ?_⟩
  funext j
  have hcarried : pushforward (hmm.kernel observation) hmm.probability j =
      (∑ i, hmm.probability i * hmm.transition i j) * hmm.density observation j := by
    rw [pushforward, Finset.sum_mul]
    refine Finset.sum_congr rfl fun i _ => ?_
    rw [Hmm.kernel, mul_assoc]
  rw [Hmm.weights, stateSum_eq, hexp, Real.exp_sub, exp_emissionLogProbability hlog hmin, hcarried]
  ring

/-- A step in which the most likely state is selected and the weights are not replaced. -/
structure Hmm.Follows (hmm : Hmm ℝ) (observation : NetworkMetrics ℝ) : Prop where
  selected : (hmmStep hmm observation).1 = largestProbability (posterior hmm observation)
  weighed : dblMin < ∑ state, hmm.weights observation state

/-- Such a step leaves the probabilities of the states given the observation. -/
theorem Hmm.Follows.filters (hexp : ∀ x : ℝ, exp x = Real.exp x)
    (hlog : ∀ x : ℝ, log x = Real.log x) (hmin : 0 < hmm.minVariance)
    (h : hmm.Follows observation) :
    ∑ j, pushforward (hmm.kernel observation) hmm.probability j ≠ 0 ∧
      (hmmStep hmm observation).2.2.probability =
        normalised (pushforward (hmm.kernel observation) hmm.probability) := by
  obtain ⟨c, hc, hweights⟩ := weights_eq hexp hlog hmin observation
  have hlarge := h.weighed
  have hkept : (hmmStep hmm observation).2.2.probability = posterior hmm observation := by
    change blend (posterior hmm observation) _ (hmmStep hmm observation).1 = _
    rw [h.selected, blend, if_neg (not_not.mpr rfl)]
  rw [hweights, ← Finset.mul_sum] at hlarge
  refine ⟨fun hzero => ?_, ?_⟩
  · rw [hzero, mul_zero] at hlarge
    exact absurd dblMin_pos hlarge.not_gt
  · rw [hkept, posterior_eq_normalize, normalize_of_lt h.weighed, ← normalised_smul hc.ne',
      hweights]
    rfl

noncomputable def runKernel (hmm : Hmm ℝ) (observations : ℕ → NetworkMetrics ℝ) (start k : ℕ) :
    AdaptiveState → AdaptiveState → ℝ :=
  (hmmTrace hmm observations (start + k)).kernel (observations (start + k))

theorem hmmTrace_good (hexp : ∀ x : ℝ, 0 < exp x) (hgood : hmm.Good)
    (observations : ℕ → NetworkMetrics ℝ) (n : ℕ) : (hmmTrace hmm observations n).Good := by
  induction n with
  | zero => exact hgood
  | succ n ih => exact hmmStep_learned (observations n) hexp ih

/-- As long as a run selects the most likely states, its probabilities are those of the ends of
the paths of the chain given all the observations, and it reports a most likely end. -/
theorem hmmTrace_filters (hexp : ∀ x : ℝ, exp x = Real.exp x)
    (hlog : ∀ x : ℝ, log x = Real.log x) (hgood : hmm.Good)
    (observations : ℕ → NetworkMetrics ℝ) (start n : ℕ)
    (hfollows : ∀ k ≤ n, (hmmTrace hmm observations (start + k)).Follows
      (observations (start + k))) :
    (hmmTrace hmm observations (start + n + 1)).probability =
      normalised (endWeight (runKernel hmm observations start)
        (hmmTrace hmm observations start).probability (n + 1)) ∧
    ∀ state, (hmmTrace hmm observations (start + n + 1)).probability state ≤
      (hmmTrace hmm observations (start + n + 1)).probability
        (reportedState hmm observations (start + n + 1)) := by
  have hpos : ∀ x : ℝ, 0 < exp x := fun x => by
    rw [hexp]
    exact Real.exp_pos x
  have hmodel := hmmTrace_good hpos hgood observations
  refine ⟨?_, selected_le (observations (start + n)) hpos (hmodel (start + n))⟩
  exact filtered (p := fun k => (hmmTrace hmm observations (start + k)).probability)
    (hmodel start).probability.2
    (fun k hk => ((hfollows k (Nat.le_of_lt_succ hk)).filters hexp hlog
      (hmodel _).minVariance_pos).1)
    fun k hk => ((hfollows k (Nat.le_of_lt_succ hk)).filters hexp hlog
      (hmodel _).minVariance_pos).2

end Filter

/-! ## A run that stays in the good state -/

section Sample

variable [MathFunctions] {hmm : Hmm ℝ}

/-- A model whose good state fits observations of zero best, and is reached best. -/
structure Hmm.Settled (hmm : Hmm ℝ) : Prop where
  good : hmm.Good
  state : hmm.state = .good
  minVariance : hmm.minVariance = 1
  mean : ∀ metric, hmm.emissionMean .good metric = 0
  variance : ∀ metric, hmm.emissionVariance .good metric = 1
  transition : ∀ row column, hmm.transition row column ≤ hmm.transition row .good
  count : ∀ row column, hmm.transitionCount row column ≤ hmm.transitionCount row .good
  prior : ∀ row column, hmm.transitionPrior row column ≤ hmm.transitionPrior row .good

noncomputable def Hmm.predicted (hmm : Hmm ℝ) (state : AdaptiveState) : ℝ :=
  ∑ i, hmm.probability i * hmm.transition i state

omit [MathFunctions] in
theorem Hmm.Settled.predicted_le (h : hmm.Settled) (state : AdaptiveState) :
    hmm.predicted state ≤ hmm.predicted .good :=
  Finset.sum_le_sum fun i _ =>
    mul_le_mul_of_nonneg_left (h.transition i state) (h.good.probability.1 i)

omit [MathFunctions] in
theorem Hmm.Good.predicted_nonneg (h : hmm.Good) (state : AdaptiveState) : 0 ≤ hmm.predicted state :=
  Finset.sum_nonneg fun i _ => mul_nonneg (h.probability.1 i) ((h.transition i).1 state)

theorem Hmm.Settled.le_predicted (h : hmm.Settled) : 1 / 5 ≤ hmm.predicted .good := by
  have htransition (i : AdaptiveState) : 1 / 5 ≤ hmm.transition i .good := by
    have hsum := Finset.sum_le_card_nsmul Finset.univ (hmm.transition i) _
      fun column _ => h.transition i column
    rw [(h.good.transition i).2, nsmul_eq_mul] at hsum
    have hcard : ((Finset.univ : Finset AdaptiveState).card : ℝ) = 5 := by
      simp [Finset.univ, Fintype.elems, AdaptiveState.all]
    rw [hcard] at hsum
    linarith
  calc (1 / 5 : ℝ) = ∑ i, hmm.probability i * (1 / 5) := by
        rw [← Finset.sum_mul, h.good.probability.2, one_mul]
    _ ≤ hmm.predicted .good := Finset.sum_le_sum fun i _ =>
        mul_le_mul_of_nonneg_left (htransition i) (h.good.probability.1 i)

theorem Hmm.Settled.emission_good (h : hmm.Settled) :
    emissionLogProbability hmm .good 0 = -(5 / 2) * log (twoPi : ℝ) := by
  rw [emissionLogProbability_eq]
  simp [Hmm.floorVariance, h.minVariance, h.mean, h.variance, Finset.univ, Fintype.elems,
    AdaptiveMetric.all]
  ring

theorem Hmm.Settled.emission_le (hlog : ∀ x : ℝ, log x = Real.log x) (h : hmm.Settled)
    (state : AdaptiveState) :
    emissionLogProbability hmm state 0 ≤ emissionLogProbability hmm .good 0 := by
  rw [emissionLogProbability_eq, emissionLogProbability_eq]
  refine Finset.sum_le_sum fun metric _ => ?_
  have hfloor : 1 ≤ hmm.floorVariance state metric := by
    rw [Hmm.floorVariance, h.minVariance]
    exact le_max_left _ _
  have hgood : hmm.floorVariance .good metric = 1 := by
    rw [Hmm.floorVariance, h.minVariance, h.variance, max_self]
  have hspread : Real.log twoPi ≤ Real.log (twoPi * hmm.floorVariance state metric) :=
    Real.log_le_log twoPi_pos (le_mul_of_one_le_right twoPi_pos.le hfloor)
  have hdistance : 0 ≤ (0 - hmm.emissionMean state metric) ^ 2 /
      hmm.floorVariance state metric := by positivity
  have hsum := add_le_add hspread hdistance
  rw [hgood, h.mean, hlog, hlog, mul_one, div_one]
  change (-1 / 2 : ℝ) * (_ + (0 - hmm.emissionMean state metric) ^ 2 / _) ≤
    -1 / 2 * (Real.log twoPi + (0 - 0) ^ 2)
  linarith

theorem Hmm.Settled.weights_eq (hexp : ∀ x : ℝ, exp x = Real.exp x)
    (hlog : ∀ x : ℝ, log x = Real.log x) (h : hmm.Settled) (state : AdaptiveState) :
    hmm.weights 0 state = hmm.predicted state *
      Real.exp (emissionLogProbability hmm state 0 - emissionLogProbability hmm .good 0) := by
  have hmax : (100 : ℝ) < dblMax := by
    have hrational : (100 : ℚ) < (2 ^ 53 - 1) * 2 ^ 971 := by decide +kernel
    have hcast : ((100 : ℚ) : ℝ) < dblMax := Rat.cast_lt.mpr hrational
    rwa [Rat.cast_ofNat] at hcast
  have htau : (twoPi : ℝ) ≤ 7 := by
    rw [twoPi, lit_real, lit_real]
    norm_num
  have hfirst : -dblMax < emissionLogProbability hmm .good 0 := by
    rw [h.emission_good, hlog]
    linarith [Real.log_le_sub_one_of_pos twoPi_pos]
  have hbest : AdaptiveState.all.foldl (fun best j =>
      if emissionLogProbability hmm j 0 > best then emissionLogProbability hmm j 0 else best)
        (-dblMax) = emissionLogProbability hmm .good 0 := by
    have hlater (state : AdaptiveState) := not_lt.mpr (h.emission_le hlog state)
    simp [AdaptiveState.all, hfirst, hlater]
  rw [Hmm.weights, hbest, stateSum_eq, hexp]
  rfl

theorem Hmm.Settled.weights_good (hexp : ∀ x : ℝ, exp x = Real.exp x)
    (hlog : ∀ x : ℝ, log x = Real.log x) (h : hmm.Settled) :
    hmm.weights 0 .good = hmm.predicted .good := by
  rw [h.weights_eq hexp hlog, sub_self, Real.exp_zero, mul_one]

theorem Hmm.Settled.weights_mem (hexp : ∀ x : ℝ, exp x = Real.exp x)
    (hlog : ∀ x : ℝ, log x = Real.log x) (h : hmm.Settled) (state : AdaptiveState) :
    0 ≤ hmm.weights 0 state ∧ hmm.weights 0 state ≤ hmm.weights 0 .good := by
  have hpredicted := h.good.predicted_nonneg state
  rw [h.weights_good hexp hlog, h.weights_eq hexp hlog]
  refine ⟨mul_nonneg hpredicted (Real.exp_pos _).le, ?_⟩
  have hsmall : Real.exp (emissionLogProbability hmm state 0 -
      emissionLogProbability hmm .good 0) ≤ 1 :=
    Real.exp_le_one_iff.mpr (sub_nonpos.mpr (h.emission_le hlog state))
  exact (mul_le_of_le_one_right hpredicted hsmall).trans (h.predicted_le state)

theorem Hmm.Settled.selected (hexp : ∀ x : ℝ, exp x = Real.exp x)
    (hlog : ∀ x : ℝ, log x = Real.log x) (h : hmm.Settled) :
    dblMin < ∑ state, hmm.weights 0 state ∧
      largestProbability (posterior hmm 0) = .good ∧ (hmmStep hmm 0).1 = .good := by
  have hle : hmm.weights 0 .good ≤ ∑ state, hmm.weights 0 state :=
    Finset.single_le_sum (fun state _ => (h.weights_mem hexp hlog state).1) (Finset.mem_univ _)
  have hsmall : (dblMin : ℝ) < 1 / 5 := by
    have hrational : (1 / 2 ^ 1022 : ℚ) < 1 / 5 := by decide +kernel
    have hcast : (dblMin : ℝ) < ((1 / 5 : ℚ) : ℝ) := Rat.cast_lt.mpr hrational
    norm_num at hcast ⊢
    exact hcast
  have hweighed : dblMin < ∑ state, hmm.weights 0 state := by
    rw [h.weights_good hexp hlog] at hle
    exact hsmall.trans_le (h.le_predicted.trans hle)
  have hcandidate : largestProbability (posterior hmm 0) = .good := by
    have hlater (state : AdaptiveState) :
        ¬posterior hmm 0 state > posterior hmm 0 .good := by
      rw [posterior_eq_normalize, normalize_of_lt hweighed]
      exact not_lt.mpr (div_le_div_of_nonneg_right (h.weights_mem hexp hlog state).2
        (dblMin_pos.trans hweighed).le)
    simp [largestProbability, hlater]
  refine ⟨hweighed, hcandidate, ?_⟩
  change (selectState hmm.state _ _ (largestProbability (posterior hmm 0))).1 = _
  rw [hcandidate, h.state]
  rfl

theorem Hmm.Settled.follows (hexp : ∀ x : ℝ, exp x = Real.exp x)
    (hlog : ∀ x : ℝ, log x = Real.log x) (h : hmm.Settled) : hmm.Follows 0 := by
  obtain ⟨hweighed, hcandidate, hselected⟩ := h.selected hexp hlog
  exact ⟨hselected.trans hcandidate.symm, hweighed⟩

theorem Hmm.Settled.step_good (hexp : ∀ x : ℝ, exp x = Real.exp x) (h : hmm.Settled) :
    (hmmStep hmm 0).2.2.Good := by
  have hpos : ∀ x : ℝ, 0 < exp x := by
    intro x
    rw [hexp]
    exact Real.exp_pos x
  exact hmmStep_learned 0 hpos h.good

theorem Hmm.Settled.step_count_le (hexp : ∀ x : ℝ, exp x = Real.exp x)
    (hlog : ∀ x : ℝ, log x = Real.log x) (h : hmm.Settled) (row column : AdaptiveState) :
    (hmmStep hmm 0).2.2.transitionCount row column ≤
      (hmmStep hmm 0).2.2.transitionCount row .good := by
  obtain ⟨-, -, hselected⟩ := h.selected hexp hlog
  have hcount (column : AdaptiveState) : (hmmStep hmm 0).2.2.transitionCount row column =
      hmm.transitionCount row column * hmm.transitionForgetting +
        if row = hmm.state ∧ column = .good then 1 else 0 := by
    rw [← hselected]
    exact forgottenCount_eq _ _ _ _
  rw [hcount, hcount]
  refine add_le_add (mul_le_mul_of_nonneg_right (h.count row column)
    h.good.transitionForgetting.1.le) ?_
  by_cases hcolumn : column = .good
  · rw [hcolumn]
  · rw [if_neg fun hboth => hcolumn hboth.2]
    split
    · exact zero_le_one
    · exact le_rfl

/-- Every entry of a row is its smoothed count over the same total. -/
theorem Hmm.Settled.step_transition_le (hexp : ∀ x : ℝ, exp x = Real.exp x)
    (hlog : ∀ x : ℝ, log x = Real.log x) (h : hmm.Settled) (row column : AdaptiveState) :
    (hmmStep hmm 0).2.2.transition row column ≤ (hmmStep hmm 0).2.2.transition row .good := by
  have hsmoothed (column : AdaptiveState) : (hmmStep hmm 0).2.2.transition row column =
      ((hmmStep hmm 0).2.2.transitionCount row column +
          hmm.transitionSmoothing * hmm.transitionPrior row column) /
        ∑ column, ((hmmStep hmm 0).2.2.transitionCount row column +
          hmm.transitionSmoothing * hmm.transitionPrior row column) := by
    rw [← stateSum_eq]
    rfl
  have htotal : 0 ≤ ∑ column, ((hmmStep hmm 0).2.2.transitionCount row column +
      hmm.transitionSmoothing * hmm.transitionPrior row column) :=
    Finset.sum_nonneg fun column _ =>
      add_nonneg ((h.step_good hexp).transitionCount_nonneg row column)
        (mul_nonneg h.good.transitionSmoothing_nonneg ((h.good.transitionPrior row).1 column))
  have hprior := mul_le_mul_of_nonneg_left (h.prior row column) h.good.transitionSmoothing_nonneg
  rw [hsmoothed, hsmoothed]
  exact div_le_div_of_nonneg_right (add_le_add (h.step_count_le hexp hlog row column) hprior) htotal

/-- The mean of the good state is where the observation is, and its variance at the floor. -/
theorem Hmm.Settled.step_variance (hexp : ∀ x : ℝ, exp x = Real.exp x) (h : hmm.Settled)
    (metric : AdaptiveMetric) : (hmmStep hmm 0).2.2.emissionVariance .good metric = 1 := by
  have hone : (lit 1 : ℝ) = 1 := Rat.cast_one
  set rate := hmm.emissionAlpha * (hmmStep hmm 0).2.2.probability .good
  have hrate : 0 ≤ rate :=
    mul_nonneg h.good.emissionAlpha.1.le ((h.step_good hexp).probability.1 .good)
  have hvariance : (hmmStep hmm 0).2.2.emissionVariance .good metric =
      if (lit 1 - rate) * hmm.emissionVariance .good metric +
        rate * (0 - hmm.emissionMean .good metric) * (0 - hmm.emissionMean .good metric) <
          hmm.minVariance then hmm.minVariance
      else (lit 1 - rate) * hmm.emissionVariance .good metric +
        rate * (0 - hmm.emissionMean .good metric) * (0 - hmm.emissionMean .good metric) := rfl
  rw [hvariance, h.mean, h.variance, h.minVariance, hone, sub_zero, mul_zero, add_zero, mul_one]
  split
  · rfl
  · linarith

/-- A step with an observation of zero keeps what makes the good state the best one. -/
theorem Hmm.Settled.step (hexp : ∀ x : ℝ, exp x = Real.exp x)
    (hlog : ∀ x : ℝ, log x = Real.log x) (h : hmm.Settled) : (hmmStep hmm 0).2.2.Settled where
  good := h.step_good hexp
  state := (h.selected hexp hlog).2.2
  minVariance := h.minVariance
  mean := by
    intro metric
    change hmm.emissionMean .good metric + _ * (0 - hmm.emissionMean .good metric) = 0
    rw [h.mean, sub_zero, mul_zero, add_zero]
  variance := h.step_variance hexp
  transition := h.step_transition_le hexp hlog
  count := h.step_count_le hexp hlog
  prior := h.prior

theorem Hmm.Settled.trace (hexp : ∀ x : ℝ, exp x = Real.exp x)
    (hlog : ∀ x : ℝ, log x = Real.log x) (h : hmm.Settled) (n : ℕ) :
    (hmmTrace hmm (fun _ => 0) n).Settled := by
  induction n with
  | zero => exact h
  | succ n ih => exact ih.step hexp hlog

noncomputable def spreadModel : Hmm ℝ :=
  { uniformModel with emissionMean := fun state _ => (state.toNat : ℝ) }

omit [MathFunctions] in
theorem spreadModel_settled : spreadModel.Settled where
  good := ⟨uniformModel_good.probability, uniformModel_good.transition,
    uniformModel_good.transitionPrior, uniformModel_good.transitionCount_nonneg,
    uniformModel_good.transitionCount_pos, uniformModel_good.emissionVariance_pos,
    uniformModel_good.emissionAlpha, uniformModel_good.transitionForgetting,
    uniformModel_good.transitionSmoothing_nonneg, uniformModel_good.minVariance_pos⟩
  state := rfl
  minVariance := rfl
  mean := fun _ => Nat.cast_zero
  variance := fun _ => rfl
  transition := fun _ _ => le_rfl
  count := fun _ _ => le_rfl
  prior := fun _ _ => le_rfl

end Sample

theorem hmmTrace_filters_spreadModel :
    letI : MathFunctions := ⟨Real.log, Real.exp⟩
    (hmmTrace spreadModel (fun _ => 0) 4).probability =
      normalised (endWeight (runKernel spreadModel (fun _ => 0) 1)
        (hmmTrace spreadModel (fun _ => 0) 1).probability 3) ∧
    ∀ state, (hmmTrace spreadModel (fun _ => 0) 4).probability state ≤
      (hmmTrace spreadModel (fun _ => 0) 4).probability
        (reportedState spreadModel (fun _ => 0) 4) := by
  let _ : MathFunctions := ⟨Real.log, Real.exp⟩
  have hfilters := hmmTrace_filters (fun _ => rfl) (fun _ => rfl) spreadModel_settled.good
    (fun _ => 0) 1 2 fun k _ =>
      (spreadModel_settled.trace (fun _ => rfl) (fun _ => rfl) (1 + k)).follows (fun _ => rfl)
        fun _ => rfl
  simpa only [Nat.reduceAdd] using hfilters

end AdaptiveLowpan
