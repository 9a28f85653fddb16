import Mathlib.Algebra.BigOperators.Intervals
import Mathlib.Algebra.BigOperators.Ring.Finset
import Mathlib.Analysis.Convex.Basic
import Mathlib.Tactic.LinearCombination
import Mathlib.Tactic.Ring

/-! # Exponentially weighted moments

The mean of a sequence and the spread around it, with weights that fall off by a constant
factor towards the past. Both can be kept up with one value at a time. -/

namespace AdaptiveLowpan.WeightedMoments
open Finset

variable {K : Type} [CommRing K]

/-- The weight of the `i`-th of the values up to the `n`-th. -/
def weight (α : K) (n i : ℕ) : K := if i = 0 then (1 - α) ^ n else α * (1 - α) ^ (n - i)

def weightedMean (α : K) (x : ℕ → K) (n : ℕ) : K := ∑ i ∈ range (n + 1), weight α n i * x i

def weightedSpread (α : K) (x : ℕ → K) (n : ℕ) : K :=
  ∑ i ∈ range (n + 1), weight α n i * (x i - weightedMean α x n) ^ 2

@[simp] theorem weight_zero (α : K) : weight α 0 0 = 1 := by simp [weight]

@[simp] theorem weight_self_succ (α : K) (n : ℕ) : weight α (n + 1) (n + 1) = α := by
  simp [weight]

theorem weight_succ (α : K) {n i : ℕ} (h : i ≤ n) :
    weight α (n + 1) i = (1 - α) * weight α n i := by
  by_cases hi : i = 0
  · rw [weight, weight, if_pos hi, if_pos hi, pow_succ']
  · rw [weight, weight, if_neg hi, if_neg hi, Nat.succ_sub h, pow_succ']
    ring

theorem sum_weight_mul_succ (α : K) (f : ℕ → K) (n : ℕ) :
    ∑ i ∈ range (n + 2), weight α (n + 1) i * f i =
      (1 - α) * ∑ i ∈ range (n + 1), weight α n i * f i + α * f (n + 1) := by
  rw [sum_range_succ, weight_self_succ, mul_sum]
  congr 1
  refine sum_congr rfl fun i hi => ?_
  rw [weight_succ α (Nat.lt_succ_iff.mp (mem_range.mp hi)), mul_assoc]

@[simp] theorem sum_weight (α : K) (n : ℕ) : ∑ i ∈ range (n + 1), weight α n i = 1 := by
  induction n with
  | zero => simp
  | succ n ih =>
    have hstep := sum_weight_mul_succ α (fun _ => 1) n
    simp only [mul_one, ih] at hstep
    rw [hstep]
    ring

@[simp] theorem weightedMean_zero (α : K) (x : ℕ → K) : weightedMean α x 0 = x 0 := by
  simp [weightedMean]

@[simp] theorem weightedSpread_zero (α : K) (x : ℕ → K) : weightedSpread α x 0 = 0 := by
  simp [weightedSpread]

theorem weightedMean_succ (α : K) (x : ℕ → K) (n : ℕ) :
    weightedMean α x (n + 1) =
      weightedMean α x n + α * (x (n + 1) - weightedMean α x n) := by
  rw [weightedMean, sum_weight_mul_succ, ← weightedMean]
  ring

/-- The spread around another point is larger by its square distance to the mean. -/
theorem sum_weight_mul_sq_sub (α : K) (x : ℕ → K) (n : ℕ) (c : K) :
    ∑ i ∈ range (n + 1), weight α n i * (x i - c) ^ 2 =
      weightedSpread α x n + (weightedMean α x n - c) ^ 2 := by
  have hexpand (i : ℕ) : weight α n i * (x i - c) ^ 2 =
      weight α n i * (x i - weightedMean α x n) ^ 2 +
        (2 * (weightedMean α x n - c) * (weight α n i * x i) +
          (c ^ 2 - weightedMean α x n ^ 2) * weight α n i) := by ring
  simp only [hexpand, sum_add_distrib, ← mul_sum, sum_weight]
  rw [← weightedSpread, ← weightedMean]
  ring

theorem weightedSpread_succ (α : K) (x : ℕ → K) (n : ℕ) :
    weightedSpread α x (n + 1) =
      (1 - α) * (weightedSpread α x n + α * (x (n + 1) - weightedMean α x n) ^ 2) := by
  rw [weightedSpread, sum_weight_mul_succ, sum_weight_mul_sq_sub, weightedMean_succ]
  ring

/-- Behind the `m`-th value, a constant draws the mean towards itself. -/
theorem weightedMean_of_tail (α : K) (x : ℕ → K) {c : K} {m n : ℕ} (hmn : m ≤ n)
    (htail : ∀ i, m < i → i ≤ n → x i = c) :
    weightedMean α x n = c + (1 - α) ^ (n - m) * (weightedMean α x m - c) := by
  induction n, hmn using Nat.le_induction with
  | base => rw [Nat.sub_self]; ring
  | succ n hmn ih =>
    have hlast : x (n + 1) = c := htail (n + 1) (Nat.lt_succ_of_le hmn) le_rfl
    have hbefore := ih fun i hi hin => htail i hi (Nat.le_succ_of_le hin)
    rw [weightedMean_succ, hlast, hbefore, Nat.succ_sub hmn, pow_succ]
    ring

theorem weightedMean_mem_Icc {K : Type} [Field K] [LinearOrder K] [IsStrictOrderedRing K] {α : K}
    (hα : α ∈ Set.Icc 0 1) {x : ℕ → K} {a b : K} (hx : ∀ i, x i ∈ Set.Icc a b) (n : ℕ) :
    weightedMean α x n ∈ Set.Icc a b := by
  induction n with
  | zero =>
    rw [weightedMean_zero]
    exact hx 0
  | succ n ih =>
    have hkept : 0 ≤ 1 - α := sub_nonneg.mpr hα.2
    have hstep : weightedMean α x (n + 1) = (1 - α) * weightedMean α x n + α * x (n + 1) := by
      rw [weightedMean_succ]
      ring
    have hconvex := convex_Icc a b ih (hx (n + 1)) hkept hα.1 (by ring)
    rw [hstep]
    exact hconvex

end AdaptiveLowpan.WeightedMoments
