import AdaptiveLowpan.ExactArithmetic
import AdaptiveLowpan.RationalArithmetic
import Mathlib.Data.Nat.Find

/-! # The rounding of a stored number

Exact arithmetic rounds where a number is stored as a pattern. A conversion is faithful if it
moves a number by at most one unit in the last of its 24 places; the nearest pattern of the
binary32 format is a faithful one. -/

namespace AdaptiveLowpan

namespace Single

theorem value_ofNat {n : ℕ} (hn : n < 2 ^ 31) : value ⟨UInt32.ofNat n⟩ = magnitude n := by
  have hbits : (UInt32.ofNat n).toNat = n := by
    rw [UInt32.toNat_ofNat']
    omega
  rw [value]
  simp only [hbits]
  rw [if_pos hn]

noncomputable def below (x : ℝ) : ℕ :=
  open Classical in Nat.findGreatest (fun n => (magnitude n : ℝ) ≤ x) infinity

section Below

variable {x : ℝ}

/-- The nearest magnitude to a positive number, the even one of two that are equally near. -/
noncomputable def nearest (x : ℝ) : ℕ :=
  let n := below x
  open Classical in
  if magnitude (n + 1) - x < x - magnitude n ∨
      (magnitude (n + 1) - x = x - magnitude n ∧ n % 2 = 1) then n + 1 else n

end Below

end Single

end AdaptiveLowpan
