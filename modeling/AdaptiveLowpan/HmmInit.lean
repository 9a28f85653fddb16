import AdaptiveLowpan.HmmModel
import AdaptiveLowpan.LearningConfig

/-! # The model that an accepted configuration gives

`adaptive_hmm_init` in exact arithmetic. The validator looks at the sign of every
transition prior, but only at the sum of the initial probabilities. -/

namespace AdaptiveLowpan
open CDouble ProbabilityVectors

def AdaptiveConfig.guarded (config : AdaptiveConfig ℝ) : AdaptiveConfig Guarded :=
  config.map .value

section Exact

variable [MathFunctions]

/-- The model is made by divisions by positive numbers only, and its tables are
distributions, counts and variances. -/
structure HmmInitSound (config : AdaptiveConfig ℝ) : Prop where
  inDomain : hmmInit config.guarded = (hmmInit config).guarded
  probability : (hmmInit config).probability ∈ stdSimplex ℝ AdaptiveState
  transition : ∀ row, (hmmInit config).transition row ∈ stdSimplex ℝ AdaptiveState
  transitionCount_nonneg : ∀ row column, 0 ≤ (hmmInit config).transitionCount row column
  transitionCount_pos : ∀ row, 0 < ∑ column, (hmmInit config).transitionCount row column
  emissionVariance_pos : ∀ state metric, 0 < (hmmInit config).emissionVariance state metric

variable {config : AdaptiveConfig ℝ}

theorem hmmInit_transition (config : AdaptiveConfig ℝ) (row : AdaptiveState) :
    (hmmInit config).transition row = fun column =>
      config.transitionPrior row column / ∑ column, config.transitionPrior row column := by
  rw [← stateSum_eq]
  rfl

theorem hmmInit_transition_mem (h : LearningAccepted config) (row : AdaptiveState) :
    (hmmInit config).transition row ∈ stdSimplex ℝ AdaptiveState := by
  rw [hmmInit_transition]
  exact div_sum_mem (h.transitionPrior_nonneg row) (h.transitionPrior_pos row)

theorem sum_hmmInit_transitionCount (h : LearningAccepted config) (row : AdaptiveState) :
    ∑ column, (hmmInit config).transitionCount row column = config.transitionPriorStrength := by
  have hcount (column : AdaptiveState) : (hmmInit config).transitionCount row column =
      config.transitionPriorStrength * (hmmInit config).transition row column := rfl
  simp only [hcount]
  rw [← Finset.mul_sum, (hmmInit_transition_mem h row).2, mul_one]

theorem hmmInit_inDomain (h : LearningAccepted config) :
    hmmInit config.guarded = (hmmInit config).guarded := by
  have hinitial : normalize config.guarded.initialProbability =
      fun state => .value (normalize config.initialProbability state) := normalize_value _
  have hdiv (row column : AdaptiveState) : config.guarded.transitionPrior row column /
      stateSum (config.guarded.transitionPrior row) =
      .value (config.transitionPrior row column / stateSum (config.transitionPrior row)) := by
    have hpos := h.transitionPrior_pos row
    rw [← stateSum_eq] at hpos
    have hsum : stateSum (config.guarded.transitionPrior row) =
        .value (stateSum (config.transitionPrior row)) := stateSum_value _
    rw [hsum]
    exact Guarded.value_div _ hpos
  rw [hmmInit, hmmInit]
  simp only [hinitial, hdiv, largestProbability_value]
  rfl

/-- An accepted configuration without a negative initial probability gives a good model. -/
theorem hmmInit_good (h : LearningAccepted config)
    (hinitial : normalize config.initialProbability ∈ stdSimplex ℝ AdaptiveState) :
    (hmmInit config).Good where
  probability := hinitial
  transition := hmmInit_transition_mem h
  transitionPrior := hmmInit_transition_mem h
  transitionCount_nonneg := fun row column =>
    mul_nonneg h.transitionPriorStrength_pos.le ((hmmInit_transition_mem h row).1 column)
  transitionCount_pos := by
    intro row
    rw [sum_hmmInit_transitionCount h]
    exact h.transitionPriorStrength_pos
  emissionVariance_pos := h.emissionVariance_pos
  emissionAlpha := h.emissionAlpha
  transitionForgetting := h.transitionForgetting
  transitionSmoothing_nonneg := h.transitionSmoothing_nonneg
  minVariance_pos := h.minEmissionVariance_pos

/-- Normalising gives a probability vector from weights without a negative one, and from
weights whose sum is so small that they are replaced. -/
theorem normalize_mem_iff {values : StateTable ℝ} :
    normalize values ∈ stdSimplex ℝ AdaptiveState ↔
      (∀ state, 0 ≤ values state) ∨ ∑ state, values state ≤ dblMin := by
  constructor
  · intro hmem
    rcases le_or_gt (∑ state, values state) dblMin with hsmall | hlarge
    · exact .inr hsmall
    · rw [normalize_of_lt hlarge] at hmem
      exact .inl (nonneg_of_div_sum_mem (dblMin_pos.trans hlarge) hmem)
  · rintro (hsign | hsmall)
    · exact normalize_mem hsign
    · rw [normalize_of_le hsmall]
      exact uniform_mem

/-- The validator is strong enough for the model exactly where no initial probability is
negative or all of them are replaced. -/
theorem hmmInit_sound_iff (haccepted : configValidate config = .ok ()) :
    HmmInitSound config ↔ (∀ state, 0 ≤ config.initialProbability state) ∨
      ∑ state, config.initialProbability state ≤ dblMin := by
  have h := learningAccepted_of_validate haccepted
  rw [← normalize_mem_iff]
  constructor
  · intro hsound
    exact hsound.probability
  · intro hinitial
    have hgood := hmmInit_good h hinitial
    exact ⟨hmmInit_inDomain h, hgood.probability, hgood.transition, hgood.transitionCount_nonneg,
      hgood.transitionCount_pos, hgood.emissionVariance_pos⟩

end Exact

theorem hmmInit_sound_defaults :
    letI : MathFunctions := ⟨Real.log, Real.exp⟩
    HmmInitSound (configDefaults : AdaptiveConfig ℚ).toReal := by
  let _ : MathFunctions := ⟨Real.log, Real.exp⟩
  have haccepted : configValidate (configDefaults : AdaptiveConfig ℚ) = .ok () := by
    decide +kernel
  rw [← configValidate_toReal] at haccepted
  refine (hmmInit_sound_iff haccepted).mpr (.inl ?_)
  intro state
  have hsign : 0 ≤ (configDefaults : AdaptiveConfig ℚ).initialProbability state := by
    cases state <;> decide +kernel
  exact Rat.cast_nonneg.mpr hsign

def negativeInitial : AdaptiveConfig ℚ :=
  { configDefaults with initialProbability := AdaptiveState.table 2 (-1) 0 0 0 }

/-- The validator accepts them, and the model starts with them. -/
theorem hmmInit_negativeInitial :
    letI : MathFunctions := ⟨Real.log, Real.exp⟩
    configValidate negativeInitial.toReal = .ok () ∧ ¬HmmInitSound negativeInitial.toReal := by
  let _ : MathFunctions := ⟨Real.log, Real.exp⟩
  have haccepted : configValidate negativeInitial = .ok () := by decide +kernel
  rw [← configValidate_toReal] at haccepted
  refine ⟨haccepted, ?_⟩
  intro hsound
  rcases normalize_mem_iff.mp hsound.probability with hsign | hsmall
  · have hneg := hsign .normal
    have hvalue : negativeInitial.toReal.initialProbability .normal = ((-1 : ℚ) : ℝ) := rfl
    rw [hvalue] at hneg
    norm_num at hneg
  · have hsum : ∑ state, negativeInitial.toReal.initialProbability state = 1 := by
      rw [← stateSum_eq]
      norm_num [stateSum, AdaptiveState.all, negativeInitial, AdaptiveConfig.toReal,
        AdaptiveConfig.map, AdaptiveState.table, lit_zero]
    rw [hsum] at hsmall
    exact absurd dblMin_lt_one (not_lt.mpr hsmall)

end AdaptiveLowpan
