import AdaptiveLowpan.ProbabilityVectors
import AdaptiveLowpan.ExactArithmetic
import AdaptiveLowpan.Hmm

/-! # The tables of the model in exact arithmetic

The functions of the inference engine one by one: what they compute in the usual
notation, and that they stay in the domain of the arithmetic. -/

namespace AdaptiveLowpan
open CDouble ProbabilityVectors

instance : Fintype AdaptiveState where
  elems := ⟨AdaptiveState.all, by decide⟩
  complete := by
    intro state
    cases state <;> decide

instance : Inhabited AdaptiveState := ⟨.good⟩

variable [MathFunctions]

theorem dblMin_pos : (0 : ℝ) < dblMin := by
  rw [dblMin, lit_real]
  exact_mod_cast (by positivity : (0 : ℚ) < 1 / 2 ^ 1022)

theorem dblMin_lt_one : (dblMin : ℝ) < 1 := by
  rw [dblMin, lit_real]
  have hlt : (1 : ℚ) / 2 ^ 1022 < 1 := by
    rw [div_lt_one (by positivity)]
    exact one_lt_pow₀ one_lt_two (by decide)
  exact_mod_cast hlt

/-! ## Sums and normalisation -/

theorem stateSum_eq (values : StateTable ℝ) : stateSum values = ∑ state, values state := by
  have hzero : (lit 0 : ℝ) = 0 := Rat.cast_zero
  rw [stateSum, hzero]
  have hfold : (AdaptiveState.all.map values).sum = _ := List.sum_eq_foldl
  rw [List.foldl_map] at hfold
  exact hfold.symm

theorem stateSum_value (values : StateTable ℝ) :
    stateSum (fun state => Guarded.value (values state)) = .value (stateSum values) :=
  List.foldl_hom Guarded.value fun _ _ => rfl

theorem normalize_of_le {values : StateTable ℝ} (h : ∑ state, values state ≤ dblMin) :
    normalize values = fun _ => 1 / (Fintype.card AdaptiveState : ℝ) := by
  rw [normalize, stateSum_eq, if_pos h]
  funext state
  rw [lit_real, lit_real]
  norm_num [Fintype.card, Finset.univ, Fintype.elems, AdaptiveState.all]

theorem normalize_of_lt {values : StateTable ℝ} (h : dblMin < ∑ state, values state) :
    normalize values = fun state => values state / ∑ state, values state := by
  rw [normalize, stateSum_eq, if_neg (not_le.mpr h)]

theorem normalize_mem {values : StateTable ℝ} (h : ∀ state, 0 ≤ values state) :
    normalize values ∈ stdSimplex ℝ AdaptiveState := by
  rcases le_or_gt (∑ state, values state) dblMin with hsmall | hlarge
  · rw [normalize_of_le hsmall]
    exact uniform_mem
  · rw [normalize_of_lt hlarge]
    exact div_sum_mem h (dblMin_pos.trans hlarge)

theorem normalize_of_mem {values : StateTable ℝ} (h : values ∈ stdSimplex ℝ AdaptiveState) :
    normalize values = values := by
  have hlarge : dblMin < ∑ state, values state := by
    rw [h.2]
    exact dblMin_lt_one
  rw [normalize_of_lt hlarge, h.2]
  funext state
  exact div_one (values state)

/-- Normalising divides by a positive number, whatever the values are. -/
theorem normalize_value (values : StateTable ℝ) :
    normalize (fun state => Guarded.value (values state)) =
      fun state => .value (normalize values state) := by
  rw [normalize, normalize, stateSum_value]
  rcases le_or_gt (stateSum values) dblMin with hsmall | hlarge
  · have hsmall' : Guarded.value (stateSum values) ≤ dblMin := hsmall
    have hfive : (0 : ℝ) < lit 5 := by
      rw [lit_real]
      norm_num
    rw [if_pos hsmall', if_pos hsmall]
    funext state
    exact Guarded.value_div _ hfive
  · have hlarge' : ¬Guarded.value (stateSum values) ≤ dblMin := not_le.mpr hlarge
    rw [if_neg hlarge', if_neg (not_le.mpr hlarge)]
    funext state
    exact Guarded.value_div _ (dblMin_pos.trans hlarge)

/-! ## The most likely state -/

theorem le_largestProbability (probability : StateTable ℝ) (state : AdaptiveState) :
    probability state ≤ probability (largestProbability probability) := by
  apply le_foldl_best
  cases state
  · exact .inl rfl
  all_goals
    right
    decide

theorem largestProbability_value (probability : StateTable ℝ) :
    largestProbability (fun state => Guarded.value (probability state)) =
      largestProbability probability := rfl

end AdaptiveLowpan
