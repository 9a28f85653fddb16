import Mathlib.Algebra.Order.BigOperators.Group.List
import Mathlib.Data.Rat.Floor
import Mathlib.Tactic.Linarith
import Mathlib.Tactic.Ring

/-! # Taking a total in chunks

A loop takes from a total as much as one chunk may hold, until nothing is left. -/

namespace AdaptiveLowpan.Chunks

def chunks (size total : ℤ) : List ℤ :=
  if _h : 0 < size ∧ 0 < total then min size total :: chunks size (total - min size total) else []
termination_by total.toNat
decreasing_by omega

variable {size total : ℤ}

theorem chunks_of_nonpos (h : total ≤ 0) : chunks size total = [] := by
  rw [chunks, dif_neg (by omega)]

theorem chunks_of_pos (hsize : 0 < size) (h : 0 < total) :
    chunks size total = min size total :: chunks size (total - min size total) := by
  rw [chunks, dif_pos ⟨hsize, h⟩]

/-- Induction over what is left. -/
@[elab_as_elim]
theorem chunk_induction {motive : ℤ → Prop} (hsize : 0 < size)
    (done : ∀ total ≤ 0, motive total)
    (more : ∀ total, 0 < total → motive (total - min size total) → motive total) (total : ℤ) :
    motive total := by
  fun_induction chunks size total with
  | case1 total h ih => exact more total h.2 ih
  | case2 total h => exact done total (by omega)

theorem sum_chunks (hsize : 0 < size) (h : 0 ≤ total) : (chunks size total).sum = total := by
  induction total using chunk_induction hsize with
  | done total hdone =>
    rw [chunks_of_nonpos hdone, List.sum_nil]
    omega
  | more total hpos ih =>
    rw [chunks_of_pos hsize hpos, List.sum_cons, ih (by omega)]
    omega

theorem mem_chunks (hsize : 0 < size) {c : ℤ} (hc : c ∈ chunks size total) : 0 < c ∧ c ≤ size := by
  induction total using chunk_induction hsize with
  | done total hdone =>
    rw [chunks_of_nonpos hdone] at hc
    cases hc
  | more total hpos ih =>
    rw [chunks_of_pos hsize hpos, List.mem_cons] at hc
    rcases hc with rfl | hrest
    · omega
    · exact ih hrest

theorem mem_dropLast_chunks (hsize : 0 < size) {c : ℤ} (hc : c ∈ (chunks size total).dropLast) :
    c = size := by
  induction total using chunk_induction hsize with
  | done total hdone =>
    rw [chunks_of_nonpos hdone] at hc
    cases hc
  | more total hpos ih =>
    rw [chunks_of_pos hsize hpos] at hc
    rcases le_or_gt total size with hlast | hmore
    · rw [chunks_of_nonpos (by omega)] at hc
      cases hc
    · rw [chunks_of_pos hsize (by omega), List.dropLast_cons_cons, List.mem_cons] at hc
      rcases hc with rfl | hrest
      · omega
      · rw [chunks_of_pos hsize (by omega)] at ih
        exact ih hrest

theorem ceil_div_sub (hsize : 0 < size) (total : ℤ) :
    ⌈((total - size : ℤ) : ℚ) / size⌉ = ⌈(total : ℚ) / size⌉ - 1 := by
  have hsize' : (size : ℚ) ≠ 0 := Int.cast_ne_zero.mpr hsize.ne'
  rw [Int.cast_sub, sub_div, div_self hsize', Int.ceil_sub_one]

theorem ceil_div_of_nonpos (hsize : 0 < size) (h : total ≤ 0) (hlarge : -size < total) :
    ⌈(total : ℚ) / size⌉ = 0 := by
  have hsize' : (0 : ℚ) < size := Int.cast_pos.mpr hsize
  have hlarge' : (-size : ℚ) < total := by exact_mod_cast hlarge
  rw [Int.ceil_eq_iff]
  constructor
  · rw [lt_div_iff₀ hsize']
    push_cast
    linarith
  · exact div_nonpos_of_nonpos_of_nonneg (Int.cast_nonpos.mpr h) hsize'.le

theorem length_chunks (hsize : 0 < size) (h : 0 ≤ total) :
    ((chunks size total).length : ℤ) = ⌈(total : ℚ) / size⌉ := by
  induction total using chunk_induction hsize with
  | done total hdone =>
    rw [chunks_of_nonpos hdone, ceil_div_of_nonpos hsize hdone (by omega)]
    rfl
  | more total hpos ih =>
    rw [chunks_of_pos hsize hpos, List.length_cons, Nat.cast_succ, ih (by omega)]
    rcases le_or_gt total size with hlast | hmore
    · have hone : ⌈((total - size : ℤ) : ℚ) / size⌉ = 0 :=
        ceil_div_of_nonpos hsize (by omega) (by omega)
      rw [ceil_div_sub hsize] at hone
      rw [min_eq_right hlast, sub_self, Int.cast_zero, zero_div, Int.ceil_zero]
      omega
    · rw [min_eq_left hmore.le, ceil_div_sub hsize]
      ring

theorem chunks_eq_map_range {n : ℕ} (hsize : 0 < size) (hcover : total ≤ n * size)
    (hlast : ∀ i < n, (i : ℤ) * size < total) :
    chunks size total = (List.range n).map fun i : ℕ => min size (total - i * size) := by
  induction n generalizing total with
  | zero => exact chunks_of_nonpos (by simpa using hcover)
  | succ n ih =>
    have hpos : 0 < total := by simpa using hlast 0 n.succ_pos
    push_cast at hcover
    have hrest : chunks size (total - min size total) = chunks size (total - size) := by
      rcases le_or_gt total size with h | h
      · rw [min_eq_right h, chunks_of_nonpos (by omega), chunks_of_nonpos (by omega)]
      · rw [min_eq_left h.le]
    have hnext : ∀ i < n, (i : ℤ) * size < total - size := by
      intro i hi
      have hi' := hlast (i + 1) (Nat.succ_lt_succ hi)
      push_cast at hi'
      linarith
    rw [chunks_of_pos hsize hpos, hrest, ih (by linarith) hnext, List.range_succ_eq_map,
      List.map_cons, List.map_map]
    congr 1
    · simp
    · refine List.map_congr_left fun i _ => ?_
      simp only [Function.comp_apply, Nat.succ_eq_add_one]
      push_cast
      ring_nf

section Sums
variable {M : Type} [AddCommMonoid M] [PartialOrder M] [IsOrderedAddMonoid M]

/-- What the chunks cost together grows with the total, where what one chunk costs grows with it. -/
theorem sum_map_chunks_le (hsize : 0 < size) (cost : ℤ → M) (hnonneg : ∀ c, 0 < c → 0 ≤ cost c)
    (hmono : ∀ c c', 0 < c → c ≤ c' → cost c ≤ cost c') {total' : ℤ} (h : total ≤ total') :
    ((chunks size total).map cost).sum ≤ ((chunks size total').map cost).sum := by
  induction total using chunk_induction hsize generalizing total' with
  | done total hdone =>
    rw [chunks_of_nonpos hdone]
    refine List.sum_nonneg fun x hx => ?_
    obtain ⟨c, hc, rfl⟩ := List.mem_map.mp hx
    exact hnonneg c (mem_chunks hsize hc).1
  | more total hpos ih =>
    rw [chunks_of_pos hsize hpos, chunks_of_pos hsize (hpos.trans_le h), List.map_cons,
      List.map_cons, List.sum_cons, List.sum_cons]
    exact add_le_add (hmono _ _ (by omega) (by omega)) (ih (by omega))

end Sums

end AdaptiveLowpan.Chunks
