import Mathlib.Algebra.BigOperators.Field
import Mathlib.Analysis.Convex.StdSimplex
import Mathlib.Tactic.Linarith
import Mathlib.Tactic.Ring

/-! # Probability vectors

How a probability vector is made from weights, how it is mixed with one outcome, and
how a value that moves towards another at a rate stays in an interval. -/

namespace AdaptiveLowpan.ProbabilityVectors

variable {K ι : Type} [Field K] [LinearOrder K] [IsStrictOrderedRing K] [Fintype ι]

theorem div_sum_mem {w : ι → K} (hw : ∀ i, 0 ≤ w i) (hsum : 0 < ∑ i, w i) :
    (fun i => w i / ∑ j, w j) ∈ stdSimplex K ι := by
  constructor
  · intro i
    exact div_nonneg (hw i) hsum.le
  · rw [← Finset.sum_div]
    exact div_self hsum.ne'

/-- Conversely, only weights without a negative one give a probability vector. -/
theorem nonneg_of_div_sum_mem {w : ι → K} (hsum : 0 < ∑ i, w i)
    (h : (fun i => w i / ∑ j, w j) ∈ stdSimplex K ι) (i : ι) : 0 ≤ w i := by
  have hi := h.1 i
  rw [le_div_iff₀ hsum, zero_mul] at hi
  exact hi

theorem uniform_mem [Nonempty ι] : (fun _ => 1 / (Fintype.card ι : K)) ∈ stdSimplex K ι := by
  have hcard : (0 : K) < Fintype.card ι := Nat.cast_pos.mpr Fintype.card_pos
  constructor
  · intro i
    exact div_nonneg zero_le_one hcard.le
  · rw [Finset.sum_const, Finset.card_univ, nsmul_eq_mul]
    exact mul_one_div_cancel hcard.ne'

def halfOn [DecidableEq ι] (p : ι → K) (i : ι) : ι → K :=
  fun j => if j = i then p j * (1 / 2) + 1 / 2 else p j * (1 / 2)

section HalfOn

variable [DecidableEq ι] {p : ι → K}

theorem halfOn_mem (hp : p ∈ stdSimplex K ι) (i : ι) : halfOn p i ∈ stdSimplex K ι := by
  have hhalf : (0 : K) < 1 / 2 := one_half_pos
  constructor
  · intro j
    have hj := mul_nonneg (hp.1 j) hhalf.le
    rw [halfOn]
    split
    · exact add_nonneg hj hhalf.le
    · exact hj
  · have hsplit (j : ι) : halfOn p i j = p j * (1 / 2) + if j = i then 1 / 2 else 0 := by
      rw [halfOn]
      split
      · rfl
      · rw [add_zero]
    simp only [hsplit]
    rw [Finset.sum_add_distrib, ← Finset.sum_mul, hp.2, one_mul, Finset.sum_ite_eq' _ i,
      if_pos (Finset.mem_univ i), add_halves]

/-- The outcome that half is put on becomes a most likely one. -/
theorem halfOn_le (hp : p ∈ stdSimplex K ι) (i j : ι) : halfOn p i j ≤ halfOn p i i := by
  have hi := hp.1 i
  have hj := (mem_Icc_of_mem_stdSimplex hp j).2
  by_cases h : j = i
  · rw [h]
  · rw [halfOn, halfOn, if_neg h, if_pos rfl]
    linarith

end HalfOn

/-- Counts to which prior weights are added keep a positive sum. -/
theorem sum_add_pos {count prior : ι → K} {weight : K} (hcount : 0 < ∑ i, count i)
    (hweight : 0 ≤ weight) (hprior : ∀ i, 0 ≤ prior i) :
    0 < ∑ i, (count i + weight * prior i) := by
  rw [Finset.sum_add_distrib]
  exact add_pos_of_pos_of_nonneg hcount
    (Finset.sum_nonneg fun i _ => mul_nonneg hweight (hprior i))

/-! ## Estimates from counts and a prior -/

section Estimate

variable {K : Type} [Field K] [LinearOrder K] [IsStrictOrderedRing K]
variable {count total weight prior : K}

theorem mul_prior_le_estimate (prior : K) (hcount : 0 ≤ count) (htotal : 0 ≤ total)
    (hweight : 0 < weight) :
    weight * prior ≤ (total + weight) * ((count + weight * prior) / (total + weight)) := by
  have hpos : total + weight ≠ 0 := (add_pos_of_nonneg_of_pos htotal hweight).ne'
  rw [mul_div_cancel₀ _ hpos]
  exact le_add_of_nonneg_left hcount

theorem weight_mul_abs_estimate_sub_le (hcount : 0 ≤ count) (hle : count ≤ total)
    (hweight : 0 < weight) (hprior : prior ∈ Set.Icc 0 1) :
    weight * |(count + weight * prior) / (total + weight) - prior| ≤ total := by
  have htotal : 0 ≤ total := hcount.trans hle
  have hpos : 0 < total + weight := add_pos_of_nonneg_of_pos htotal hweight
  have hdifference : (count + weight * prior) / (total + weight) - prior =
      (count - total * prior) / (total + weight) := by
    rw [div_sub' hpos.ne']
    congr 1
    ring
  have hfar : |count - total * prior| ≤ total := by
    rw [abs_le]
    constructor
    · linarith [mul_le_of_le_one_right htotal hprior.2]
    · linarith [mul_nonneg htotal hprior.1]
  rw [hdifference, abs_div, abs_of_pos hpos, ← mul_div_assoc, div_le_iff₀ hpos]
  calc weight * |count - total * prior| ≤ weight * total :=
        mul_le_mul_of_nonneg_left hfar hweight.le
    _ = total * weight := mul_comm _ _
    _ ≤ total * (total + weight) :=
        mul_le_mul_of_nonneg_left (le_add_of_nonneg_left htotal) htotal

end Estimate

/-! ## The first best outcome -/

/-- The scan over a list keeps an outcome of largest weight. -/
theorem le_foldl_best {K ι : Type} [LinearOrder K] (w : ι → K) (outcomes : List ι) (best i : ι)
    (h : i = best ∨ i ∈ outcomes) :
    w i ≤ w (outcomes.foldl (fun best i => if w i > w best then i else best) best) := by
  induction outcomes generalizing best i with
  | nil =>
    rcases h with rfl | h
    · exact le_refl _
    · cases h
  | cons next outcomes ih =>
    rw [List.foldl_cons]
    by_cases hlarger : w next > w best
    · rw [if_pos hlarger]
      rcases h with rfl | h
      · exact hlarger.le.trans (ih next next (.inl rfl))
      · exact ih next i (List.mem_cons.mp h)
    · rw [if_neg hlarger]
      rcases h with rfl | h
      · exact ih i i (.inl rfl)
      rcases List.mem_cons.mp h with rfl | h
      · exact (not_lt.mp hlarger).trans (ih best best (.inl rfl))
      · exact ih best i (.inr h)

/-! ## Moving towards a value at a rate -/

theorem towards_mem_Icc {x y rate lo hi : K} (hrate : rate ∈ Set.Icc 0 1)
    (hx : x ∈ Set.Icc lo hi) (hy : y ∈ Set.Icc lo hi) :
    x + rate * (y - x) ∈ Set.Icc lo hi := by
  have hmem := (convex_Icc lo hi).add_smul_sub_mem hx hy hrate
  rwa [smul_eq_mul] at hmem

theorem mean_mem_Icc {x y rate lo hi : K} (hrate : rate ∈ Set.Icc 0 1)
    (hx : x ∈ Set.Icc lo hi) (hy : y ∈ Set.Icc lo hi) :
    (1 - rate) * x + rate * y ∈ Set.Icc lo hi := by
  have hmem := towards_mem_Icc hrate hx hy
  have hsame : (1 - rate) * x + rate * y = x + rate * (y - x) := by ring
  rwa [hsame]

end AdaptiveLowpan.ProbabilityVectors
