import Mathlib.Algebra.BigOperators.Intervals
import Mathlib.Algebra.BigOperators.Ring.Finset
import Mathlib.Algebra.Order.BigOperators.Ring.Finset
import Mathlib.Tactic.Linarith
import Mathlib.Tactic.Ring

/-! # Discounted sums

A counter that is multiplied by a factor in every step before something is added to it. -/

namespace AdaptiveLowpan.DiscountedSums
open Finset

section Ring

variable {K : Type} [CommRing K]

/-- The sum of the first values, each discounted for the steps that came after it. -/
def discounted (factor : K) (added : ℕ → K) (n : ℕ) : K :=
  ∑ k ∈ range n, factor ^ (n - 1 - k) * added k

variable {factor : K} {added : ℕ → K}

@[simp] theorem discounted_zero : discounted factor added 0 = 0 := by
  rw [discounted, sum_range_zero]

@[simp] theorem discounted_succ (n : ℕ) :
    discounted factor added (n + 1) = discounted factor added n * factor + added n := by
  rw [discounted, sum_range_succ, Nat.add_sub_cancel, Nat.sub_self, pow_zero, one_mul, discounted,
    sum_mul]
  congr 1
  refine sum_congr rfl fun k hk => ?_
  have hlater : n - k = n - 1 - k + 1 := by
    have hlt := mem_range.mp hk
    omega
  rw [hlater, pow_succ]
  ring

theorem eq_of_recurrence {counter : ℕ → K}
    (h : ∀ n, counter (n + 1) = counter n * factor + added n) (n : ℕ) :
    counter n = factor ^ n * counter 0 + discounted factor added n := by
  induction n with
  | zero => simp
  | succ n ih =>
    rw [h, ih, discounted_succ, pow_succ]
    ring

theorem sum_discounted {ι : Type} [Fintype ι] (added : ι → ℕ → K) (n : ℕ) :
    ∑ i, discounted factor (added i) n = discounted factor (fun k => ∑ i, added i k) n := by
  induction n with
  | zero => simp
  | succ n ih =>
    simp only [discounted_succ, sum_add_distrib]
    rw [← sum_mul, ih]

theorem discounted_of_pause {n m : ℕ} (h : ∀ k, n ≤ k → k < n + m → added k = 0) :
    discounted factor added (n + m) = factor ^ m * discounted factor added n := by
  induction m with
  | zero => simp
  | succ m ih =>
    rw [← Nat.add_assoc, discounted_succ, h (n + m) (Nat.le_add_right n m) (by omega), add_zero,
      ih fun k hk hlt => h k hk (by omega), pow_succ]
    ring

end Ring

section Order

variable {K : Type} [CommRing K] [LinearOrder K] [IsStrictOrderedRing K]
variable {factor : K} {added : ℕ → K}

theorem discounted_nonneg (hfactor : 0 ≤ factor) (hadded : ∀ k, 0 ≤ added k) (n : ℕ) :
    0 ≤ discounted factor added n :=
  sum_nonneg fun k _ => mul_nonneg (pow_nonneg hfactor _) (hadded k)

theorem discounted_mono (hfactor : 0 ≤ factor) {added' : ℕ → K}
    (hadded : ∀ k, added k ≤ added' k) (n : ℕ) :
    discounted factor added n ≤ discounted factor added' n :=
  sum_le_sum fun k _ => mul_le_mul_of_nonneg_left (hadded k) (pow_nonneg hfactor _)

/-- The sum of the geometric series bounds the counter. -/
theorem one_sub_mul_discounted_le (hfactor : 0 ≤ factor) (hle : factor ≤ 1)
    (hadded : ∀ k, added k ≤ 1) (n : ℕ) : (1 - factor) * discounted factor added n ≤ 1 := by
  have hone : 0 ≤ 1 - factor := sub_nonneg.mpr hle
  have hseries : (1 - factor) * discounted factor added n ≤ 1 - factor ^ n := by
    induction n with
    | zero => simp
    | succ n ih =>
      rw [discounted_succ, pow_succ]
      calc (1 - factor) * (discounted factor added n * factor + added n)
          = (1 - factor) * discounted factor added n * factor + (1 - factor) * added n := by ring
        _ ≤ (1 - factor ^ n) * factor + (1 - factor) * 1 :=
          add_le_add (mul_le_mul_of_nonneg_right ih hfactor)
            (mul_le_mul_of_nonneg_left (hadded n) hone)
        _ = 1 - factor ^ n * factor := by ring
  exact hseries.trans (sub_le_self 1 (pow_nonneg hfactor n))

end Order

end AdaptiveLowpan.DiscountedSums
