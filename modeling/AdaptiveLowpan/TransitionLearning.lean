import AdaptiveLowpan.DiscountedSums
import AdaptiveLowpan.HmmInit
import AdaptiveLowpan.RecoveryRule

/-! # What the transitions have learned

In exact arithmetic the transition table is, after any run, the estimate from the discounted
numbers of the transitions that were reported and a prior that smoothing keeps alive. -/

namespace AdaptiveLowpan
open CDouble ProbabilityVectors DiscountedSums

variable [MathFunctions]

/-- One where a step of a run goes from a state to another, else zero. -/
noncomputable def taken (hmm : Hmm ℝ) (observations : ℕ → NetworkMetrics ℝ)
    (row column : AdaptiveState) (k : ℕ) : ℝ :=
  if row = reportedState hmm observations k ∧ column = reportedState hmm observations (k + 1)
  then 1 else 0

/-- One where a step of a run leaves a state, else zero. -/
noncomputable def departed (hmm : Hmm ℝ) (observations : ℕ → NetworkMetrics ℝ)
    (row : AdaptiveState) (k : ℕ) : ℝ :=
  if row = reportedState hmm observations k then 1 else 0

section Run

variable (hmm : Hmm ℝ) (observations : ℕ → NetworkMetrics ℝ) (row column : AdaptiveState) (n : ℕ)

theorem sum_taken :
    ∑ column, taken hmm observations row column n = departed hmm observations row n := by
  simp only [taken, departed]
  by_cases hrow : row = reportedState hmm observations n
  · simp [hrow]
  · simp [hrow]

theorem taken_mem : 0 ≤ taken hmm observations row column n ∧
    taken hmm observations row column n ≤ departed hmm observations row n := by
  rw [taken, departed]
  split
  · rename_i hboth
    rw [if_pos hboth.1]
    exact ⟨zero_le_one, le_rfl⟩
  · refine ⟨le_rfl, ?_⟩
    split
    · exact zero_le_one
    · exact le_rfl

theorem departed_le : departed hmm observations row n ≤ 1 := by
  rw [departed]
  split
  · exact le_rfl
  · exact zero_le_one

theorem hmmTrace_parameters :
    (hmmTrace hmm observations n).transitionForgetting = hmm.transitionForgetting ∧
      (hmmTrace hmm observations n).transitionSmoothing = hmm.transitionSmoothing ∧
      (hmmTrace hmm observations n).transitionPrior = hmm.transitionPrior := by
  induction n with
  | zero => exact ⟨rfl, rfl, rfl⟩
  | succ n ih => exact ih

theorem hmmTrace_transitionCount_succ :
    (hmmTrace hmm observations (n + 1)).transitionCount row column =
      (hmmTrace hmm observations n).transitionCount row column * hmm.transitionForgetting +
        taken hmm observations row column n := by
  obtain ⟨hforgetting, -, -⟩ := hmmTrace_parameters hmm observations n
  have hcount : (hmmTrace hmm observations (n + 1)).transitionCount row column =
      (hmmTrace hmm observations n).transitionCount row column *
          (hmmTrace hmm observations n).transitionForgetting +
        if row = (hmmTrace hmm observations n).state ∧
          column = (hmmStep (hmmTrace hmm observations n) (observations n)).1 then 1 else 0 :=
    forgottenCount_eq _ _ _ _
  rw [hcount, hforgetting, taken, reportedState_eq hmm observations n]
  rfl

theorem hmmTrace_transitionCount :
    (hmmTrace hmm observations n).transitionCount row column =
      hmm.transitionForgetting ^ n * hmm.transitionCount row column +
        discounted hmm.transitionForgetting (taken hmm observations row column) n := by
  let counter := fun k => (hmmTrace hmm observations k).transitionCount row column
  have hcounter (k : ℕ) : counter (k + 1) = counter k * hmm.transitionForgetting +
      taken hmm observations row column k :=
    hmmTrace_transitionCount_succ hmm observations row column k
  exact eq_of_recurrence hcounter n

theorem hmmTrace_transition_succ :
    (hmmTrace hmm observations (n + 1)).transition row column =
      ((hmmTrace hmm observations (n + 1)).transitionCount row column +
          hmm.transitionSmoothing * hmm.transitionPrior row column) /
        ∑ column, ((hmmTrace hmm observations (n + 1)).transitionCount row column +
          hmm.transitionSmoothing * hmm.transitionPrior row column) := by
  obtain ⟨-, hsmoothing, hprior⟩ := hmmTrace_parameters hmm observations n
  rw [← stateSum_eq, ← hsmoothing, ← hprior]
  rfl

end Run

section Learned

variable {config : AdaptiveConfig ℝ} (observations : ℕ → NetworkMetrics ℝ)
  (row column : AdaptiveState)

noncomputable def priorWeight (config : AdaptiveConfig ℝ) (n : ℕ) : ℝ :=
  config.transitionForgetting ^ n * config.transitionPriorStrength + config.transitionSmoothing

omit [MathFunctions] in
theorem smoothing_le_priorWeight (h : LearningAccepted config) (n : ℕ) :
    config.transitionSmoothing ≤ priorWeight config n :=
  le_add_of_nonneg_left
    (mul_nonneg (pow_nonneg h.transitionForgetting.1.le n) h.transitionPriorStrength_pos.le)

omit [MathFunctions] in
theorem priorWeight_pos (h : LearningAccepted config) (n : ℕ) : 0 < priorWeight config n :=
  add_pos_of_pos_of_nonneg
    (mul_pos (pow_pos h.transitionForgetting.1 n) h.transitionPriorStrength_pos)
    h.transitionSmoothing_nonneg

theorem smoothed_eq (n : ℕ) :
    (hmmTrace (hmmInit config) observations n).transitionCount row column +
        config.transitionSmoothing * (hmmInit config).transition row column =
      discounted config.transitionForgetting (taken (hmmInit config) observations row column) n +
        priorWeight config n * (hmmInit config).transition row column := by
  rw [hmmTrace_transitionCount, priorWeight]
  change config.transitionForgetting ^ n *
    (config.transitionPriorStrength * (hmmInit config).transition row column) +
      discounted config.transitionForgetting _ n + _ = _
  ring

theorem sum_smoothed_eq (h : LearningAccepted config) (n : ℕ) :
    ∑ column, ((hmmTrace (hmmInit config) observations n).transitionCount row column +
        config.transitionSmoothing * (hmmInit config).transition row column) =
      discounted config.transitionForgetting (departed (hmmInit config) observations row) n +
        priorWeight config n := by
  simp only [smoothed_eq, Finset.sum_add_distrib]
  rw [sum_discounted, ← Finset.mul_sum, (hmmInit_transition_mem h row).2, mul_one]
  simp only [sum_taken]

/-- A transition is the discounted number of times that it was taken, with the prior's share,
over the discounted number of times that its source was left, with the prior's weight. -/
theorem hmmTrace_transition_eq (h : LearningAccepted config) (n : ℕ) :
    (hmmTrace (hmmInit config) observations n).transition row column =
      (discounted config.transitionForgetting (taken (hmmInit config) observations row column) n +
          priorWeight config n * (hmmInit config).transition row column) /
        (discounted config.transitionForgetting (departed (hmmInit config) observations row) n +
          priorWeight config n) := by
  cases n with
  | zero =>
    have hpos := (priorWeight_pos h 0).ne'
    rw [discounted_zero, discounted_zero, zero_add, zero_add, mul_div_cancel_left₀ _ hpos]
    rfl
  | succ n =>
    rw [hmmTrace_transition_succ, ← smoothed_eq, ← sum_smoothed_eq observations row h]
    rfl

/-- What is known about a transition after a run of any length. -/
structure TransitionLearned (config : AdaptiveConfig ℝ) (observations : ℕ → NetworkMetrics ℝ)
    (row column : AdaptiveState) (n : ℕ) : Prop where
  estimate : (hmmTrace (hmmInit config) observations n).transition row column =
    (discounted config.transitionForgetting (taken (hmmInit config) observations row column) n +
        priorWeight config n * (hmmInit config).transition row column) /
      (discounted config.transitionForgetting (departed (hmmInit config) observations row) n +
        priorWeight config n)
  /-- Smoothing keeps what the prior allows. -/
  floor : (1 - config.transitionForgetting) * config.transitionSmoothing *
      (hmmInit config).transition row column ≤
    (1 + (1 - config.transitionForgetting) * config.transitionSmoothing) *
      (hmmTrace (hmmInit config) observations n).transition row column
  /-- Where the discounted counts fade and the prior does not, a row that is not left returns
  to the prior. -/
  pause : config.transitionForgetting < 1 → 0 < config.transitionSmoothing →
    ∀ m ≤ n, (∀ k, m ≤ k → k < n → reportedState (hmmInit config) observations k ≠ row) →
      |(hmmTrace (hmmInit config) observations n).transition row column -
        (hmmInit config).transition row column| ≤
          config.transitionForgetting ^ (n - m) /
            ((1 - config.transitionForgetting) * config.transitionSmoothing)
  /-- Where the counts and the prior fade alike, or neither does, it keeps its entries. -/
  frozen : config.transitionForgetting = 1 ∨ config.transitionSmoothing = 0 →
    ∀ m ≤ n, (∀ k, m ≤ k → k < n → reportedState (hmmInit config) observations k ≠ row) →
      (hmmTrace (hmmInit config) observations n).transition row column =
        (hmmTrace (hmmInit config) observations m).transition row column

omit [MathFunctions] in
theorem floor_of_share {rate smoothing weight total prior estimate : ℝ}
    (hshare : weight * prior ≤ (total + weight) * estimate) (hnonneg : 0 ≤ estimate)
    (hrate : 0 ≤ rate) (hsmoothing : 0 ≤ smoothing) (hle : smoothing ≤ weight)
    (hweight : 0 < weight) (htotal : rate * total ≤ 1) :
    rate * smoothing * prior ≤ (1 + rate * smoothing) * estimate := by
  refine le_of_mul_le_mul_left ?_ hweight
  calc weight * (rate * smoothing * prior) = rate * smoothing * (weight * prior) := by ring
    _ ≤ rate * smoothing * ((total + weight) * estimate) :=
      mul_le_mul_of_nonneg_left hshare (mul_nonneg hrate hsmoothing)
    _ = smoothing * estimate * (rate * total) + rate * smoothing * weight * estimate := by ring
    _ ≤ smoothing * estimate * 1 + rate * smoothing * weight * estimate :=
      add_le_add_left (mul_le_mul_of_nonneg_left htotal (mul_nonneg hsmoothing hnonneg)) _
    _ ≤ weight * estimate + rate * smoothing * weight * estimate := by
      rw [mul_one]
      exact add_le_add_left (mul_le_mul_of_nonneg_right hle hnonneg) _
    _ = weight * ((1 + rate * smoothing) * estimate) := by ring

section Pause

variable {observations row column} {n m : ℕ}

theorem discounted_departed_of_pause (hm : m ≤ n)
    (hpause : ∀ k, m ≤ k → k < n → reportedState (hmmInit config) observations k ≠ row) :
    discounted config.transitionForgetting (departed (hmmInit config) observations row) n =
      config.transitionForgetting ^ (n - m) *
        discounted config.transitionForgetting (departed (hmmInit config) observations row) m := by
  obtain ⟨d, rfl⟩ := Nat.exists_eq_add_of_le hm
  rw [Nat.add_sub_cancel_left]
  refine discounted_of_pause fun k hk hlt => ?_
  rw [departed, if_neg (hpause k hk hlt).symm]

/-- While a row is not left, the counts of its transitions are discounted. -/
theorem discounted_taken_of_pause (hm : m ≤ n)
    (hpause : ∀ k, m ≤ k → k < n → reportedState (hmmInit config) observations k ≠ row) :
    discounted config.transitionForgetting (taken (hmmInit config) observations row column) n =
      config.transitionForgetting ^ (n - m) *
        discounted config.transitionForgetting
          (taken (hmmInit config) observations row column) m := by
  obtain ⟨d, rfl⟩ := Nat.exists_eq_add_of_le hm
  rw [Nat.add_sub_cancel_left]
  refine discounted_of_pause fun k hk hlt => ?_
  rw [taken, if_neg fun hboth => hpause k hk hlt hboth.1.symm]

omit [MathFunctions] in
/-- The weight of the prior is discounted like the counts, if it does not change or fades. -/
theorem priorWeight_of_frozen
    (hfrozen : config.transitionForgetting = 1 ∨ config.transitionSmoothing = 0) (hm : m ≤ n) :
    priorWeight config n = config.transitionForgetting ^ (n - m) * priorWeight config m := by
  rw [priorWeight, priorWeight]
  rcases hfrozen with hone | hzero
  · rw [hone, one_pow, one_pow, one_pow, one_mul, one_mul]
  · rw [hzero, add_zero, add_zero, ← mul_assoc, ← pow_add, Nat.sub_add_cancel hm]

/-- The distance to the prior is the faded weight of what was learned before the pause. -/
theorem one_sub_mul_abs_sub_le (h : LearningAccepted config) (hm : m ≤ n)
    (hpause : ∀ k, m ≤ k → k < n → reportedState (hmmInit config) observations k ≠ row) :
    (1 - config.transitionForgetting) * (priorWeight config n *
      |(hmmTrace (hmmInit config) observations n).transition row column -
        (hmmInit config).transition row column|) ≤ config.transitionForgetting ^ (n - m) := by
  have hf := h.transitionForgetting
  have hcount := discounted_nonneg hf.1.le
    (fun k => (taken_mem (hmmInit config) observations row column k).1) n
  have hle := discounted_mono hf.1.le
    (fun k => (taken_mem (hmmInit config) observations row column k).2) n
  have hseries := one_sub_mul_discounted_le hf.1.le hf.2
    (departed_le (hmmInit config) observations row) m
  have hnear := weight_mul_abs_estimate_sub_le hcount hle (priorWeight_pos h n)
    (mem_Icc_of_mem_stdSimplex (hmmInit_transition_mem h row) column)
  rw [← hmmTrace_transition_eq observations row column h n] at hnear
  calc (1 - config.transitionForgetting) * (priorWeight config n * _)
      ≤ (1 - config.transitionForgetting) * _ :=
      mul_le_mul_of_nonneg_left hnear (sub_nonneg.mpr hf.2)
    _ = config.transitionForgetting ^ (n - m) * ((1 - config.transitionForgetting) *
        discounted config.transitionForgetting
          (departed (hmmInit config) observations row) m) := by
      rw [discounted_departed_of_pause hm hpause]
      ring
    _ ≤ config.transitionForgetting ^ (n - m) * 1 :=
      mul_le_mul_of_nonneg_left hseries (pow_nonneg hf.1.le _)
    _ = config.transitionForgetting ^ (n - m) := mul_one _

theorem abs_transition_sub_prior_le (h : LearningAccepted config)
    (hfades : config.transitionForgetting < 1) (hsmoothing : 0 < config.transitionSmoothing)
    (hm : m ≤ n)
    (hpause : ∀ k, m ≤ k → k < n → reportedState (hmmInit config) observations k ≠ row) :
    |(hmmTrace (hmmInit config) observations n).transition row column -
      (hmmInit config).transition row column| ≤
        config.transitionForgetting ^ (n - m) /
          ((1 - config.transitionForgetting) * config.transitionSmoothing) := by
  have hrate : 0 < 1 - config.transitionForgetting := sub_pos.mpr hfades
  have hweight := smoothing_le_priorWeight h n
  rw [le_div_iff₀ (mul_pos hrate hsmoothing), mul_comm, mul_assoc]
  calc (1 - config.transitionForgetting) * (config.transitionSmoothing * _)
      ≤ (1 - config.transitionForgetting) * (priorWeight config n * _) :=
      mul_le_mul_of_nonneg_left (mul_le_mul_of_nonneg_right hweight (abs_nonneg _)) hrate.le
    _ ≤ config.transitionForgetting ^ (n - m) := one_sub_mul_abs_sub_le h hm hpause

theorem hmmTrace_transition_of_frozen (h : LearningAccepted config)
    (hfrozen : config.transitionForgetting = 1 ∨ config.transitionSmoothing = 0) (hm : m ≤ n)
    (hpause : ∀ k, m ≤ k → k < n → reportedState (hmmInit config) observations k ≠ row) :
    (hmmTrace (hmmInit config) observations n).transition row column =
      (hmmTrace (hmmInit config) observations m).transition row column := by
  have hfade : config.transitionForgetting ^ (n - m) ≠ 0 :=
    (pow_pos h.transitionForgetting.1 _).ne'
  rw [hmmTrace_transition_eq observations row column h n,
    hmmTrace_transition_eq observations row column h m, discounted_taken_of_pause hm hpause,
    discounted_departed_of_pause hm hpause, priorWeight_of_frozen hfrozen hm, mul_assoc,
    ← mul_add, ← mul_add, mul_div_mul_left _ _ hfade]

end Pause

/-- After any number of observations, whatever they are. -/
theorem hmmTrace_transition_learned (haccepted : configValidate config = .ok ())
    (n : ℕ) : TransitionLearned config observations row column n := by
  have h := learningAccepted_of_validate haccepted
  have hf := h.transitionForgetting
  have hprior := mem_Icc_of_mem_stdSimplex (hmmInit_transition_mem h row) column
  have hweight := priorWeight_pos h n
  have hcount := discounted_nonneg hf.1.le
    (fun k => (taken_mem (hmmInit config) observations row column k).1) n
  have hle := discounted_mono hf.1.le
    (fun k => (taken_mem (hmmInit config) observations row column k).2) n
  have hseries := one_sub_mul_discounted_le hf.1.le hf.2
    (departed_le (hmmInit config) observations row) n
  have hestimate := hmmTrace_transition_eq observations row column h n
  refine ⟨hestimate, ?_, ?_, ?_⟩
  · have hshare := mul_prior_le_estimate ((hmmInit config).transition row column) hcount
      (hcount.trans hle) hweight
    have hnonneg : 0 ≤ (hmmTrace (hmmInit config) observations n).transition row column := by
      rw [hestimate]
      exact div_nonneg (add_nonneg hcount (mul_nonneg hweight.le hprior.1))
        (add_nonneg (hcount.trans hle) hweight.le)
    rw [← hestimate] at hshare
    exact floor_of_share hshare hnonneg (sub_nonneg.mpr hf.2) h.transitionSmoothing_nonneg
      (smoothing_le_priorWeight h n) hweight hseries
  · intro hfades hsmoothing m hm hpause
    exact abs_transition_sub_prior_le h hfades hsmoothing hm hpause
  · intro hfrozen m hm hpause
    exact hmmTrace_transition_of_frozen h hfrozen hm hpause

end Learned

section Sample

/-- The defaults with counts that fade at once and much smoothing. -/
def sampleForgetting : AdaptiveConfig ℚ :=
  { (configDefaults : AdaptiveConfig ℚ) with
    transitionForgetting := 1 / 10, transitionSmoothing := 10 }

theorem hmmInit_sampleForgetting_state :
    (hmmInit sampleForgetting.toReal).state ≠ .congested := by
  intro h
  change largestProbability (normalize sampleForgetting.toReal.initialProbability) = _ at h
  have htotal : stateSum sampleForgetting.toReal.initialProbability = 1 := by
    simp [stateSum, AdaptiveState.all, sampleForgetting, configDefaults, AdaptiveConfig.toReal,
      AdaptiveConfig.map, AdaptiveState.table, lit]
  have hnormal : sampleForgetting.toReal.initialProbability .normal = 1 := Rat.cast_one
  have hcongested : sampleForgetting.toReal.initialProbability .congested = 0 := Rat.cast_zero
  have hlargest := le_largestProbability (normalize sampleForgetting.toReal.initialProbability)
    .normal
  rw [h, normalize, htotal, if_neg (not_le.mpr dblMin_lt_one), hnormal, hcongested] at hlargest
  norm_num at hlargest

omit [MathFunctions] in
/-- One step from the normal state, in which the row of congestion is not left. -/
theorem hmmTrace_transition_learned_sample :
    letI : MathFunctions := ⟨Real.log, Real.exp⟩
    TransitionLearned sampleForgetting.toReal (fun _ _ => 3) .congested .recovery 1 ∧
      |(hmmTrace (hmmInit sampleForgetting.toReal) (fun _ _ => 3) 1).transition .congested
        .recovery - (hmmInit sampleForgetting.toReal).transition .congested .recovery| ≤
          1 / 90 := by
  let _ : MathFunctions := ⟨Real.log, Real.exp⟩
  have haccepted : configValidate sampleForgetting = .ok () := by
    decide +kernel
  rw [← configValidate_toReal] at haccepted
  have hlearned := hmmTrace_transition_learned (fun _ _ => 3) .congested .recovery haccepted 1
  refine ⟨hlearned, ?_⟩
  have hforgetting : sampleForgetting.toReal.transitionForgetting = 1 / 10 := by
    change ((1 / 10 : ℚ) : ℝ) = _
    norm_num
  have hsmoothing : sampleForgetting.toReal.transitionSmoothing = 10 := by
    change ((10 : ℚ) : ℝ) = _
    norm_num
  have hpause := hlearned.pause (by rw [hforgetting]; norm_num)
    (by rw [hsmoothing]; norm_num) 0 (Nat.zero_le 1) ?_
  · rw [hforgetting, hsmoothing] at hpause
    norm_num at hpause
    exact hpause
  · intro k _ hk
    obtain rfl : k = 0 := by omega
    exact hmmInit_sampleForgetting_state

end Sample

end AdaptiveLowpan
