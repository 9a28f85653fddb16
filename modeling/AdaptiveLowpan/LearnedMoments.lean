import Mathlib.Algebra.BigOperators.Intervals
import Mathlib.Algebra.BigOperators.Ring.Finset
import Mathlib.Tactic.LinearCombination
import Mathlib.Tactic.Ring

/-! # Moments that are learned at a varying rate

A value that moves towards each new one at the rate of that step is a weighted average of
where it started and of what came, and so is the spread around it. -/

namespace AdaptiveLowpan.LearnedMoments
open Finset

variable {K : Type} [CommRing K] (rate : ℕ → K)

def retained (n : ℕ) : K := ∏ k ∈ range n, (1 - rate k)

/-- The weight of the `k`-th of the first `n` values. -/
def share (n k : ℕ) : K := rate k * ∏ l ∈ Ico (k + 1) n, (1 - rate l)

def average (start : K) (x : ℕ → K) (n : ℕ) : K :=
  retained rate n * start + ∑ k ∈ range n, share rate n k * x k

/-- The average square distance to the average, from that of the start. -/
def spread (mean variance : K) (x : ℕ → K) (n : ℕ) : K :=
  average rate (variance + (mean - average rate mean x n) ^ 2)
    (fun k => (x k - average rate mean x n) ^ 2) n

variable {rate}

@[simp] theorem average_zero (start : K) (x : ℕ → K) : average rate start x 0 = start := by
  simp [average, retained]

theorem share_succ {n k : ℕ} (h : k < n) :
    share rate (n + 1) k = share rate n k * (1 - rate n) := by
  rw [share, share, prod_Ico_succ_top h, mul_assoc]

theorem average_succ (start : K) (x : ℕ → K) (n : ℕ) :
    average rate start x (n + 1) = (1 - rate n) * average rate start x n + rate n * x n := by
  have hlast : share rate (n + 1) n = rate n := by simp [share]
  have hearlier : ∑ k ∈ range n, share rate (n + 1) k * x k =
      (1 - rate n) * ∑ k ∈ range n, share rate n k * x k := by
    rw [mul_sum]
    refine sum_congr rfl fun k hk => ?_
    rw [share_succ (mem_range.mp hk)]
    ring
  rw [average, average, retained, prod_range_succ, ← retained, sum_range_succ, hlast, hearlier]
  ring

theorem eq_average {mean : ℕ → K} {x : ℕ → K}
    (h : ∀ n, mean (n + 1) = mean n + rate n * (x n - mean n)) (n : ℕ) :
    mean n = average rate (mean 0) x n := by
  induction n with
  | zero => simp
  | succ n ih =>
    rw [h, average_succ, ← ih]
    ring

theorem average_const (c : K) (n : ℕ) : average rate c (fun _ => c) n = c := by
  induction n with
  | zero => simp
  | succ n ih =>
    rw [average_succ, ih]
    ring

theorem average_combination (a b c start start' : K) (x y : ℕ → K) (n : ℕ) :
    average rate (a * start + b * start' + c) (fun k => a * x k + b * y k + c) n =
      a * average rate start x n + b * average rate start' y n + c := by
  induction n with
  | zero => simp
  | succ n ih =>
    rw [average_succ, average_succ, average_succ, ih]
    ring

/-- The square distance to another point is larger by its own to the average. -/
theorem average_sq_sub (mean variance c : K) (x : ℕ → K) (n : ℕ) :
    average rate (variance + (mean - c) ^ 2) (fun k => (x k - c) ^ 2) n =
      spread rate mean variance x n + (average rate mean x n - c) ^ 2 := by
  generalize hm : average rate mean x n = m
  have hstart : variance + (mean - c) ^ 2 =
      1 * (variance + (mean - m) ^ 2) + 2 * (m - c) * mean + (c ^ 2 - m ^ 2) := by ring
  have hvalue (k : ℕ) : (x k - c) ^ 2 =
      1 * (x k - m) ^ 2 + 2 * (m - c) * x k + (c ^ 2 - m ^ 2) := by ring
  simp only [hvalue]
  rw [hstart, average_combination, spread, hm]
  ring

theorem spread_zero (mean variance : K) (x : ℕ → K) : spread rate mean variance x 0 = variance := by
  simp [spread]

theorem spread_succ (mean variance : K) (x : ℕ → K) (n : ℕ) :
    spread rate mean variance x (n + 1) = (1 - rate n) * (spread rate mean variance x n +
      rate n * (x n - average rate mean x n) ^ 2) := by
  rw [spread, average_succ, average_sq_sub, average_succ]
  ring

/-- A variance that learns the whole of each square distance is never below the spread. -/
theorem spread_le {K : Type} [CommRing K] [LinearOrder K] [IsStrictOrderedRing K] {rate : ℕ → K}
    {x mean variance : ℕ → K} (hrate : ∀ n, rate n ∈ Set.Icc 0 1)
    (hmean : ∀ n, mean n = average rate (mean 0) x n)
    (hvariance : ∀ n, (1 - rate n) * variance n + rate n * (x n - mean n) ^ 2 ≤ variance (n + 1))
    (n : ℕ) : spread rate (mean 0) (variance 0) x n ≤ variance n := by
  induction n with
  | zero => rw [spread_zero]
  | succ n ih =>
    have hkept : 0 ≤ 1 - rate n := sub_nonneg.mpr (hrate n).2
    have hsquare : 0 ≤ rate n * (x n - mean n) ^ 2 := mul_nonneg (hrate n).1 (sq_nonneg _)
    calc spread rate (mean 0) (variance 0) x (n + 1)
        = (1 - rate n) * spread rate (mean 0) (variance 0) x n +
            (1 - rate n) * (rate n * (x n - mean n) ^ 2) := by
          rw [spread_succ, ← hmean, mul_add]
      _ ≤ (1 - rate n) * variance n + 1 * (rate n * (x n - mean n) ^ 2) :=
          add_le_add (mul_le_mul_of_nonneg_left ih hkept)
            (mul_le_mul_of_nonneg_right (sub_le_self 1 (hrate n).1) hsquare)
      _ ≤ variance (n + 1) := by
          rw [one_mul]
          exact hvariance n

end AdaptiveLowpan.LearnedMoments
