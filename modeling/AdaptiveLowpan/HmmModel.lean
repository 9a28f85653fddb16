import AdaptiveLowpan.HmmTables
import Mathlib.Analysis.SpecialFunctions.Log.Basic

/-! # The model stays a probability model

One step of the inference engine in exact arithmetic, from any good model and with any
observation. -/

namespace AdaptiveLowpan
open CDouble ProbabilityVectors

def Hmm.guarded (hmm : Hmm ℝ) : Hmm Guarded where
  probability := fun state => .value (hmm.probability state)
  transition := fun row column => .value (hmm.transition row column)
  transitionCount := fun row column => .value (hmm.transitionCount row column)
  transitionPrior := fun row column => .value (hmm.transitionPrior row column)
  emissionMean := fun state metric => .value (hmm.emissionMean state metric)
  emissionVariance := fun state metric => .value (hmm.emissionVariance state metric)
  emissionAlpha := .value hmm.emissionAlpha
  transitionForgetting := .value hmm.transitionForgetting
  transitionSmoothing := .value hmm.transitionSmoothing
  minVariance := .value hmm.minVariance
  state := hmm.state
  previousState := hmm.previousState
  recoveryHold := hmm.recoveryHold
  recoveryRemaining := hmm.recoveryRemaining
  observations := hmm.observations

def NetworkMetrics.guarded (metrics : NetworkMetrics ℝ) : NetworkMetrics Guarded :=
  fun metric => .value (metrics metric)

/-- A probability model with admissible learning parameters. -/
structure Hmm.Good (hmm : Hmm ℝ) : Prop where
  probability : hmm.probability ∈ stdSimplex ℝ AdaptiveState
  transition : ∀ row, hmm.transition row ∈ stdSimplex ℝ AdaptiveState
  transitionPrior : ∀ row, hmm.transitionPrior row ∈ stdSimplex ℝ AdaptiveState
  transitionCount_nonneg : ∀ row column, 0 ≤ hmm.transitionCount row column
  transitionCount_pos : ∀ row, 0 < ∑ column, hmm.transitionCount row column
  emissionVariance_pos : ∀ state metric, 0 < hmm.emissionVariance state metric
  emissionAlpha : hmm.emissionAlpha ∈ Set.Ioo 0 1
  transitionForgetting : hmm.transitionForgetting ∈ Set.Ioc 0 1
  transitionSmoothing_nonneg : 0 ≤ hmm.transitionSmoothing
  minVariance_pos : 0 < hmm.minVariance

section Exact

variable [MathFunctions]

/-! ## The posterior -/

section Posterior

variable {hmm : Hmm ℝ} (observation : NetworkMetrics ℝ)

/-- Weighing the predicted states gives a probability vector, whatever the emissions say. -/
theorem posterior_mem (hexp : ∀ x : ℝ, 0 < exp x) (hgood : hmm.Good) :
    posterior hmm observation ∈ stdSimplex ℝ AdaptiveState := by
  apply normalize_mem
  intro j
  apply mul_nonneg _ (hexp _).le
  change 0 ≤ stateSum fun i => hmm.probability i * hmm.transition i j
  rw [stateSum_eq]
  apply Finset.sum_nonneg
  intro i _
  exact mul_nonneg (hgood.probability.1 i) ((hgood.transition i).1 j)

theorem emissionLogProbability_value (hmin : 0 < hmm.minVariance) (state : AdaptiveState) :
    emissionLogProbability hmm.guarded state observation.guarded =
      .value (emissionLogProbability hmm state observation) := by
  refine List.foldl_hom Guarded.value ?_
  intro result metric
  have hfloor : 0 < if hmm.emissionVariance state metric < hmm.minVariance then hmm.minVariance
      else hmm.emissionVariance state metric := by
    split
    · exact hmin
    · rename_i hnot
      exact hmin.trans_le (not_lt.mp hnot)
  have hvariance : (if Guarded.value (hmm.emissionVariance state metric) < .value hmm.minVariance
      then .value hmm.minVariance else .value (hmm.emissionVariance state metric)) =
      Guarded.value (if hmm.emissionVariance state metric < hmm.minVariance then hmm.minVariance
        else hmm.emissionVariance state metric) := Guarded.ite_value Iff.rfl _ _
  have hterm (delta : ℝ) {variance : ℝ} (hpos : 0 < variance) :
      Guarded.value result + lit (-1 / 2) * (log (twoPi * .value variance) +
        (.value delta * .value delta) / .value variance) =
      .value (result + lit (-1 / 2) * (log (twoPi * variance) + (delta * delta) / variance)) := by
    rw [Guarded.value_mul, Guarded.value_div _ hpos]
    rfl
  have hsum := hterm (observation metric - hmm.emissionMean state metric) hfloor
  rw [← hvariance] at hsum
  exact hsum

theorem posterior_value (hmin : 0 < hmm.minVariance) :
    posterior hmm.guarded observation.guarded =
      fun state => .value (posterior hmm observation state) := by
  have hprediction (j : AdaptiveState) :
      stateSum (fun i => hmm.guarded.probability i *
        hmm.guarded.transition i j) =
      .value (stateSum fun i => hmm.probability i * hmm.transition i j) := stateSum_value _
  have hmaxLog : AdaptiveState.all.foldl (fun best j =>
      if Guarded.value (emissionLogProbability hmm j observation) > best then
        .value (emissionLogProbability hmm j observation) else best) (-dblMax) =
      .value (AdaptiveState.all.foldl (fun best j =>
        if emissionLogProbability hmm j observation > best then
          emissionLogProbability hmm j observation else best) (-dblMax)) :=
    List.foldl_hom Guarded.value fun best j => Guarded.ite_value Iff.rfl _ best
  rw [posterior]
  simp only [hprediction, emissionLogProbability_value observation hmin, hmaxLog, Guarded.value_sub,
    Guarded.exp_value, Guarded.value_mul]
  exact normalize_value _

end Posterior

/-! ## The recovery rule -/

section Blend

variable {p : StateTable ℝ}

/-- Where the recovery rule overrides the most likely state, half goes to its choice. -/
theorem blend_eq (hp : p ∈ stdSimplex ℝ AdaptiveState) (candidate selected : AdaptiveState) :
    blend p candidate selected = if selected ≠ candidate then halfOn p selected else p := by
  have hhalf : (lit (1 / 2) : ℝ) = 1 / 2 := by
    rw [lit_real]
    norm_num
  rw [blend, hhalf]
  split
  · exact normalize_of_mem (halfOn_mem hp selected)
  · rfl

theorem blend_mem (hp : p ∈ stdSimplex ℝ AdaptiveState) (candidate selected : AdaptiveState) :
    blend p candidate selected ∈ stdSimplex ℝ AdaptiveState := by
  rw [blend_eq hp]
  split
  · exact halfOn_mem hp selected
  · exact hp

theorem blend_le (hp : p ∈ stdSimplex ℝ AdaptiveState) (selected state : AdaptiveState) :
    blend p (largestProbability p) selected state ≤
      blend p (largestProbability p) selected selected := by
  rw [blend_eq hp]
  by_cases h : selected ≠ largestProbability p
  · rw [if_pos h]
    exact halfOn_le hp selected state
  · rw [if_neg h, not_not.mp h]
    exact le_largestProbability p state

theorem blend_value (p : StateTable ℝ) (candidate selected : AdaptiveState) :
    blend (fun state => Guarded.value (p state)) candidate selected =
      fun state => .value (blend p candidate selected state) := by
  rw [blend, blend]
  split
  · simp only [Guarded.lit_eq, Guarded.value_mul, Guarded.value_add,
      Guarded.ite_value Iff.rfl]
    exact normalize_value _
  · rfl

end Blend

/-! ## Learning -/

section Learning

variable {hmm : Hmm ℝ}

theorem forgottenCount_eq (source target row column : AdaptiveState) :
    forgottenCount hmm source target row column =
      hmm.transitionCount row column * hmm.transitionForgetting +
        if row = source ∧ column = target then 1 else 0 := by
  have hone : (lit 1 : ℝ) = 1 := Rat.cast_one
  rw [forgottenCount, hone]
  split
  · rfl
  · exact (add_zero _).symm

theorem forgottenCount_nonneg (hgood : hmm.Good) (source target row column : AdaptiveState) :
    0 ≤ forgottenCount hmm source target row column := by
  rw [forgottenCount_eq]
  have hkept := mul_nonneg (hgood.transitionCount_nonneg row column)
    hgood.transitionForgetting.1.le
  split
  · exact add_nonneg hkept zero_le_one
  · rwa [add_zero]

/-- Forgetting leaves something of every row. -/
theorem sum_forgottenCount_pos (hgood : hmm.Good) (source target row : AdaptiveState) :
    0 < ∑ column, forgottenCount hmm source target row column := by
  have hkept : 0 < ∑ column, hmm.transitionCount row column * hmm.transitionForgetting := by
    rw [← Finset.sum_mul]
    exact mul_pos (hgood.transitionCount_pos row) hgood.transitionForgetting.1
  apply hkept.trans_le
  apply Finset.sum_le_sum
  intro column _
  rw [forgottenCount_eq]
  apply le_add_of_nonneg_right
  split
  · exact zero_le_one
  · exact le_refl 0

theorem sum_smoothed_pos (hgood : hmm.Good) (source target row : AdaptiveState) :
    0 < ∑ column, (forgottenCount hmm source target row column +
      hmm.transitionSmoothing * hmm.transitionPrior row column) :=
  sum_add_pos (sum_forgottenCount_pos hgood source target row) hgood.transitionSmoothing_nonneg
    (hgood.transitionPrior row).1

theorem updateTransition_mem (hgood : hmm.Good) (source target row : AdaptiveState) :
    (updateTransition hmm source target).transition row ∈ stdSimplex ℝ AdaptiveState := by
  have hmem := div_sum_mem (fun column => add_nonneg
    (forgottenCount_nonneg hgood source target row column)
    (mul_nonneg hgood.transitionSmoothing_nonneg ((hgood.transitionPrior row).1 column)))
    (sum_smoothed_pos hgood source target row)
  rw [← stateSum_eq] at hmem
  exact hmem

theorem updateTransition_good (hgood : hmm.Good) (source target : AdaptiveState) :
    (updateTransition hmm source target).Good where
  probability := hgood.probability
  transition := updateTransition_mem hgood source target
  transitionPrior := hgood.transitionPrior
  transitionCount_nonneg := forgottenCount_nonneg hgood source target
  transitionCount_pos := sum_forgottenCount_pos hgood source target
  emissionVariance_pos := hgood.emissionVariance_pos
  emissionAlpha := hgood.emissionAlpha
  transitionForgetting := hgood.transitionForgetting
  transitionSmoothing_nonneg := hgood.transitionSmoothing_nonneg
  minVariance_pos := hgood.minVariance_pos

theorem updateTransition_value (hgood : hmm.Good) (source target : AdaptiveState) :
    updateTransition hmm.guarded source target =
      (updateTransition hmm source target).guarded := by
  have hcount (row column : AdaptiveState) :
      forgottenCount hmm.guarded source target row column =
        .value (forgottenCount hmm source target row column) := by
    rw [forgottenCount, forgottenCount]
    exact Guarded.ite_value Iff.rfl _ _
  have hsmoothed (row column : AdaptiveState) :
      forgottenCount hmm.guarded source target row column +
        hmm.guarded.transitionSmoothing * hmm.guarded.transitionPrior row column =
      .value (forgottenCount hmm source target row column +
        hmm.transitionSmoothing * hmm.transitionPrior row column) := by
    rw [hcount]
    rfl
  have hrow (row : AdaptiveState) :
      stateSum (fun column => forgottenCount hmm.guarded source target row column +
        hmm.guarded.transitionSmoothing * hmm.guarded.transitionPrior row column) =
      .value (stateSum fun column => forgottenCount hmm source target row column +
        hmm.transitionSmoothing * hmm.transitionPrior row column) := by
    simp only [hsmoothed]
    exact stateSum_value _
  have hpos (row : AdaptiveState) := sum_smoothed_pos hgood source target row
  simp only [← stateSum_eq] at hpos
  rw [updateTransition, updateTransition, Hmm.guarded]
  congr 1
  · funext row column
    exact (congrArg₂ (· / ·) (hsmoothed row column) (hrow row)).trans
      (Guarded.value_div _ (hpos row))
  · funext row column
    exact hcount row column

/-- Learned variances do not fall below their floor. -/
theorem minVariance_le_updateEmissions (hmm : Hmm ℝ) (observation : NetworkMetrics ℝ)
    (state : AdaptiveState) (metric : AdaptiveMetric) :
    hmm.minVariance ≤ (updateEmissions hmm observation).emissionVariance state metric := by
  rw [updateEmissions]
  simp only
  split
  · exact le_refl _
  · rename_i hnot
    exact not_lt.mp hnot

theorem updateEmissions_good (hgood : hmm.Good) (observation : NetworkMetrics ℝ) :
    (updateEmissions hmm observation).Good where
  probability := hgood.probability
  transition := hgood.transition
  transitionPrior := hgood.transitionPrior
  transitionCount_nonneg := hgood.transitionCount_nonneg
  transitionCount_pos := hgood.transitionCount_pos
  emissionVariance_pos := fun state metric =>
    hgood.minVariance_pos.trans_le (minVariance_le_updateEmissions hmm observation state metric)
  emissionAlpha := hgood.emissionAlpha
  transitionForgetting := hgood.transitionForgetting
  transitionSmoothing_nonneg := hgood.transitionSmoothing_nonneg
  minVariance_pos := hgood.minVariance_pos

theorem updateEmissions_value (hmm : Hmm ℝ) (observation : NetworkMetrics ℝ) :
    updateEmissions hmm.guarded observation.guarded =
      (updateEmissions hmm observation).guarded := by
  rw [updateEmissions, updateEmissions, Hmm.guarded]
  congr 1
  funext state metric
  exact Guarded.ite_value Iff.rfl _ _

end Learning

/-! ## One step -/

/-- A step divides only by positive numbers: with every other division undefined, it
computes what it computes over the real numbers. -/
def HmmStepInDomain (hmm : Hmm ℝ) (normalized : NetworkMetrics ℝ) : Prop :=
  hmmStep hmm.guarded normalized.guarded =
    ((hmmStep hmm normalized).1, fun state => .value ((hmmStep hmm normalized).2.1 state),
      (hmmStep hmm normalized).2.2.guarded)

noncomputable def selected (hmm : Hmm ℝ) (normalized : NetworkMetrics ℝ) : Hmm ℝ :=
  let posterior := posterior hmm normalized
  let candidate := largestProbability posterior
  let choice := selectState hmm.state hmm.recoveryHold hmm.recoveryRemaining candidate
  { hmm with
    previousState := hmm.state
    state := choice.1
    recoveryRemaining := choice.2
    probability := blend posterior candidate choice.1 }

section Step

variable {hmm : Hmm ℝ} (normalized : NetworkMetrics ℝ)

theorem hmmStep_eq : hmmStep hmm normalized =
    ((selected hmm normalized).state, (selected hmm normalized).probability,
      { updateEmissions (updateTransition (selected hmm normalized) hmm.state
          (selected hmm normalized).state) normalized with
        observations := hmm.observations + 1 }) := rfl

theorem selected_good (hexp : ∀ x : ℝ, 0 < exp x) (hgood : hmm.Good) :
    (selected hmm normalized).Good :=
  { hgood with probability := blend_mem (posterior_mem normalized hexp hgood) _ _ }

theorem selected_le (hexp : ∀ x : ℝ, 0 < exp x) (hgood : hmm.Good) (state : AdaptiveState) :
    (selected hmm normalized).probability state ≤
      (selected hmm normalized).probability (selected hmm normalized).state :=
  blend_le (posterior_mem normalized hexp hgood) _ state

theorem hmmStep_inDomain (hexp : ∀ x : ℝ, 0 < exp x) (hgood : hmm.Good) :
    HmmStepInDomain hmm normalized := by
  have hselected := selected_good normalized hexp hgood
  have hposterior := posterior_value normalized hgood.minVariance_pos
  rw [HmmStepInDomain, hmmStep_eq, hmmStep]
  simp only [hposterior, largestProbability_value, blend_value]
  have htransition := updateTransition_value hselected hmm.state (selected hmm normalized).state
  have hemissions := updateEmissions_value (updateTransition (selected hmm normalized) hmm.state
    (selected hmm normalized).state) normalized
  rw [← htransition] at hemissions
  have hlearned := congrArg (fun hmm' : Hmm Guarded =>
    { hmm' with observations := hmm'.observations + 1 }) hemissions
  exact congrArg (fun hmm' => ((selected hmm normalized).state,
    (fun state => Guarded.value ((selected hmm normalized).probability state)), hmm')) hlearned

theorem hmmStep_learned (hexp : ∀ x : ℝ, 0 < exp x) (hgood : hmm.Good) :
    (hmmStep hmm normalized).2.2.Good := by
  have hlearned := updateEmissions_good
    (updateTransition_good (selected_good normalized hexp hgood) hmm.state
      (selected hmm normalized).state) normalized
  exact { hlearned with }

/-- A step leaves a good model, for every observation: it divides only by positive
numbers, keeps the variances above their floor, and selects a most likely state. -/
theorem hmmStep_good (hexp : ∀ x : ℝ, 0 < exp x) (hgood : hmm.Good) :
    HmmStepInDomain hmm normalized ∧ (hmmStep hmm normalized).2.2.Good ∧
      (∀ state metric, (hmmStep hmm normalized).2.2.minVariance ≤
        (hmmStep hmm normalized).2.2.emissionVariance state metric) ∧
      ∀ state, (hmmStep hmm normalized).2.2.probability state ≤
        (hmmStep hmm normalized).2.2.probability (hmmStep hmm normalized).2.2.state := by
  refine ⟨hmmStep_inDomain normalized hexp hgood, hmmStep_learned normalized hexp hgood, ?_,
    selected_le normalized hexp hgood⟩
  intro state metric
  exact minVariance_le_updateEmissions (updateTransition (selected hmm normalized) hmm.state
    (selected hmm normalized).state) normalized state metric

end Step

end Exact

noncomputable def uniformModel : Hmm ℝ where
  probability := fun _ => 1 / (Fintype.card AdaptiveState : ℝ)
  transition := fun _ _ => 1 / (Fintype.card AdaptiveState : ℝ)
  transitionCount := fun _ _ => 1
  transitionPrior := fun _ _ => 1 / (Fintype.card AdaptiveState : ℝ)
  emissionMean := fun _ _ => 0
  emissionVariance := fun _ _ => 1
  emissionAlpha := (1 / 2 : ℚ)
  transitionForgetting := 1
  transitionSmoothing := 0
  minVariance := 1
  state := .good
  previousState := .good
  recoveryHold := 0
  recoveryRemaining := 0
  observations := 0

theorem uniformModel_good : uniformModel.Good where
  probability := uniform_mem
  transition := fun _ => uniform_mem
  transitionPrior := fun _ => uniform_mem
  transitionCount_nonneg := fun _ _ => zero_le_one
  transitionCount_pos := fun _ => Finset.sum_pos (fun _ _ => one_pos) Finset.univ_nonempty
  emissionVariance_pos := fun _ _ => one_pos
  emissionAlpha := by
    have hhalf : ((1 / 2 : ℚ) : ℝ) = 1 / 2 := by norm_num
    have hmem : (1 / 2 : ℝ) ∈ Set.Ioo 0 1 := ⟨one_half_pos, one_half_lt_one⟩
    rwa [← hhalf] at hmem
  transitionForgetting := ⟨one_pos, le_refl 1⟩
  transitionSmoothing_nonneg := le_refl 0
  minVariance_pos := one_pos

theorem hmmStep_good_uniformModel :
    letI : MathFunctions := ⟨Real.log, Real.exp⟩
    HmmStepInDomain uniformModel (fun _ => 3) ∧ (hmmStep uniformModel fun _ => 3).2.2.Good ∧
      (∀ state metric, (hmmStep uniformModel fun _ => 3).2.2.minVariance ≤
        (hmmStep uniformModel fun _ => 3).2.2.emissionVariance state metric) ∧
      ∀ state, (hmmStep uniformModel fun _ => 3).2.2.probability state ≤
        (hmmStep uniformModel fun _ => 3).2.2.probability
          (hmmStep uniformModel fun _ => 3).2.2.state :=
  letI : MathFunctions := ⟨Real.log, Real.exp⟩
  hmmStep_good (fun _ => 3) Real.exp_pos uniformModel_good

end AdaptiveLowpan
