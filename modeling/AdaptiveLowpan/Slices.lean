import Mathlib.Data.List.Basic
import Mathlib.Tactic.Ring

/-! # Cutting a list into slices of one width

The slices follow each other without gap or overlap, all but the last have the full
width, and their number is the length divided by the width, rounded up. -/

namespace AdaptiveLowpan.Slices

variable {α : Type}

def slice (width : ℕ) (xs : List α) (i : ℕ) : List α := (xs.drop (i * width)).take width

def sliceCount (width length : ℕ) : ℕ := (length + width - 1) / width

theorem take_append_slice (width : ℕ) (xs : List α) (i : ℕ) :
    xs.take (i * width) ++ slice width xs i = xs.take ((i + 1) * width) := by
  rw [slice, Nat.succ_mul, ← List.take_add]

theorem lt_sliceCount_iff {width length i : ℕ} (hwidth : 0 < width) :
    i < sliceCount width length ↔ i * width < length := by
  rw [sliceCount, Nat.lt_div_iff_mul_lt hwidth]
  omega

theorem length_le_sliceCount_mul {width length : ℕ} (hwidth : 0 < width) :
    length ≤ sliceCount width length * width := by
  by_contra h
  have hmul : sliceCount width length * width < length := by omega
  exact Nat.lt_irrefl _ ((lt_sliceCount_iff hwidth).mpr hmul)

theorem take_sliceCount {width : ℕ} (xs : List α) (hwidth : 0 < width) :
    xs.take (sliceCount width xs.length * width) = xs :=
  List.take_of_length_le (length_le_sliceCount_mul hwidth)

theorem length_slice_le (width : ℕ) (xs : List α) (i : ℕ) : (slice width xs i).length ≤ width := by
  rw [slice, List.length_take]
  omega

theorem length_slice {width i : ℕ} {xs : List α} (hwidth : 0 < width)
    (h : i + 1 < sliceCount width xs.length) : (slice width xs i).length = width := by
  have hlt := (lt_sliceCount_iff hwidth).mp h
  rw [Nat.succ_mul] at hlt
  rw [slice, List.length_take, List.length_drop]
  omega

theorem take_min_eq_slice {width i offset : ℕ} (xs : List α)
    (hoffset : offset = min xs.length (i * width)) :
    (xs.drop offset).take (if xs.length - offset < width then xs.length - offset else width) =
      slice width xs i := by
  by_cases hend : xs.length ≤ i * width
  · have hall : offset = xs.length := by omega
    rw [slice, hall, List.drop_length, List.drop_of_length_le hend, List.take_nil, List.take_nil]
  · have hpart : offset = i * width := by omega
    rw [slice, hpart]
    split
    · rw [List.take_of_length_le (by rw [List.length_drop]),
        List.take_of_length_le (by rw [List.length_drop]; omega)]
    · rfl

theorem offset_add_min (width : ℕ) {i offset length : ℕ} (hoffset : offset = min length (i * width)) :
    offset + (if length - offset < width then length - offset else width) =
      min length ((i + 1) * width) := by
  rw [Nat.succ_mul]
  split <;> omega

end AdaptiveLowpan.Slices
