import Mathlib.Algebra.Order.Round
import Mathlib.Tactic.Linarith
import Mathlib.Tactic.Ring

/-! # Shrinking and rounding

A number is first shrunk by a threshold, and what is left of it is stored as a multiple of
a step: the nearest one, and the one farther from zero where two are equally near. -/

namespace AdaptiveLowpan.Quantiser

variable {K : Type*} [Field K] [LinearOrder K]

/-- What is left of a number that is moved towards zero by at most a threshold. -/
def shrink (threshold x : K) : K :=
  if |x| ≤ threshold then 0 else if x < 0 then -(|x| - threshold) else |x| - threshold

/-- The nearest integer, away from zero where two are equally near. -/
def nearest [FloorRing K] (x : K) : ℤ := if x < 0 then -round (-x) else round x

variable {threshold step top x : K}

theorem shrink_of_le (h : |x| ≤ threshold) : shrink threshold x = 0 := if_pos h

variable [IsStrictOrderedRing K]

theorem abs_shrink_sub_le (h : 0 ≤ threshold) : |shrink threshold x - x| ≤ threshold := by
  rw [shrink]
  split
  · rwa [zero_sub, abs_neg]
  split
  · rename_i hneg
    have hdiff : -(|x| - threshold) - x = threshold := by
      rw [abs_of_neg hneg]
      ring
    rw [hdiff, abs_of_nonneg h]
  · rename_i hnonneg
    have hdiff : |x| - threshold - x = -threshold := by
      rw [abs_of_nonneg (not_lt.mp hnonneg)]
      ring
    rw [hdiff, abs_neg, abs_of_nonneg h]

theorem shrink_mul {c : K} (hc : 0 < c) (threshold x : K) :
    shrink (c * threshold) (c * x) = c * shrink threshold x := by
  have habs : |c * x| = c * |x| := by rw [abs_mul, abs_of_pos hc]
  have hsign : c * x < 0 ↔ x < 0 := by
    simpa using mul_lt_mul_iff_right₀ (b := x) (c := 0) hc
  rw [shrink, shrink, habs]
  simp only [mul_le_mul_iff_right₀ hc, hsign]
  split
  · exact (mul_zero c).symm
  split
  · ring
  · ring

theorem shrink_nonneg (h : 0 ≤ x) : 0 ≤ shrink threshold x := by
  rw [shrink]
  split
  · exact le_rfl
  · rename_i hlt
    rw [if_neg h.not_gt, sub_nonneg]
    exact (not_le.mp hlt).le

theorem shrink_nonpos (hthreshold : 0 ≤ threshold) (h : x ≤ 0) : shrink threshold x ≤ 0 := by
  rw [shrink]
  split
  · exact le_rfl
  rename_i hlt
  rw [not_le] at hlt
  have hneg : x < 0 := h.lt_of_ne fun hzero => by
    rw [hzero, abs_zero] at hlt
    exact hthreshold.not_gt hlt
  rw [if_pos hneg, neg_nonpos, sub_nonneg]
  exact hlt.le

theorem abs_shrink_le (h : 0 ≤ threshold) : |shrink threshold x| ≤ |x| := by
  rw [shrink]
  split
  · rw [abs_zero]
    exact abs_nonneg x
  rename_i hlt
  have hleft : |(|x| - threshold)| ≤ |x| := by
    rw [abs_of_pos (sub_pos.mpr (not_le.mp hlt))]
    exact sub_le_self _ h
  split
  · rwa [abs_neg]
  · exact hleft

/-! ## The nearest integer -/

variable [FloorRing K]

theorem abs_nearest_sub_le (x : K) : |nearest x - x| ≤ 1 / 2 := by
  rw [nearest]
  split
  · have hround := abs_sub_round (-x)
    rwa [← neg_add', abs_neg, add_comm, ← abs_neg, neg_add', ← Int.cast_neg] at hround
  · rw [abs_sub_comm]
    exact abs_sub_round x

theorem round_nonneg (h : 0 ≤ x) : 0 ≤ round x := by
  have hround := sub_half_lt_round x
  have hlt : ((-1 : ℤ) : K) < (round x : ℤ) := by
    push_cast
    linarith
  have := Int.cast_lt.mp hlt
  omega

theorem nearest_nonneg (h : 0 ≤ x) : 0 ≤ nearest x := by
  rw [nearest, if_neg h.not_gt]
  exact round_nonneg h

theorem nearest_nonpos (h : x ≤ 0) : nearest x ≤ 0 := by
  rw [nearest]
  split
  · have := round_nonneg (neg_nonneg.mpr h)
    omega
  · rename_i hnonneg
    rw [le_antisymm h (not_lt.mp hnonneg), round_zero]

theorem round_le_of_le {n : ℤ} (h : x ≤ n) : round x ≤ n := by
  have hround := round_le_add_half x
  have hlt : ((round x : ℤ) : K) < ((n + 1 : ℤ) : K) := by
    push_cast
    linarith
  have := Int.cast_lt.mp hlt
  omega

/-- Rounding does not leave an interval around zero that ends at integers. -/
theorem abs_nearest_le {n : ℤ} (h : |x| ≤ n) : |nearest x| ≤ n := by
  rw [nearest]
  split
  · rename_i hneg
    rw [abs_neg, abs_of_nonneg (round_nonneg (neg_nonneg.mpr hneg.le))]
    rw [abs_of_neg hneg] at h
    exact round_le_of_le h
  · rename_i hnonneg
    rw [not_lt] at hnonneg
    rw [abs_of_nonneg (round_nonneg hnonneg)]
    rw [abs_of_nonneg hnonneg] at h
    exact round_le_of_le h

theorem nearest_intCast (n : ℤ) : nearest (n : K) = n := by
  rw [nearest]
  split
  · rw [← Int.cast_neg, round_intCast, neg_neg]
  · exact round_intCast n

/-! ## Multiples of a step -/

theorem nearest_mul_sub_le (hstep : 0 < step) (x : K) :
    |nearest (x / step) * step - x| ≤ step / 2 := by
  have hscale : nearest (x / step) * step - x = (nearest (x / step) - x / step) * step := by
    rw [sub_mul, div_mul_cancel₀ x hstep.ne']
  rw [hscale, abs_mul, abs_of_pos hstep]
  calc |nearest (x / step) - x / step| * step ≤ 1 / 2 * step :=
        mul_le_mul_of_nonneg_right (abs_nearest_sub_le _) hstep.le
    _ = step / 2 := by ring

/-- A number that is shrunk and stored has moved by at most the threshold and half a step. -/
theorem nearest_shrink_sub_le (hthreshold : 0 ≤ threshold) (hstep : 0 < step) (x : K) :
    |nearest (shrink threshold x / step) * step - x| ≤ threshold + step / 2 := by
  have hsplit : nearest (shrink threshold x / step) * step - x =
      (shrink threshold x - x) + (nearest (shrink threshold x / step) * step - shrink threshold x) := by
    ring
  rw [hsplit]
  exact (abs_add_le _ _).trans (add_le_add (abs_shrink_sub_le hthreshold) (nearest_mul_sub_le hstep _))

theorem nearest_shrink_of_le (h : |x| ≤ threshold) : nearest (shrink threshold x / step) = 0 := by
  rw [shrink_of_le h, zero_div]
  exact_mod_cast nearest_intCast (K := K) 0

/-- A number is never stored with the opposite sign. -/
theorem nearest_mul_nonneg (hstep : 0 < step) (x : K) : 0 ≤ (nearest (x / step) : K) * x := by
  rcases le_total 0 x with hx | hx
  · exact mul_nonneg (Int.cast_nonneg (nearest_nonneg (div_nonneg hx hstep.le))) hx
  · refine mul_nonneg_of_nonpos_of_nonpos (Int.cast_nonpos.mpr ?_) hx
    exact nearest_nonpos (div_nonpos_of_nonpos_of_nonneg hx hstep.le)

theorem nearest_shrink_mul_nonneg (hthreshold : 0 ≤ threshold) (hstep : 0 < step) (x : K) :
    0 ≤ (nearest (shrink threshold x / step) : K) * x := by
  rcases le_total 0 x with hx | hx
  · refine mul_nonneg (Int.cast_nonneg ?_) hx
    exact nearest_nonneg (div_nonneg (shrink_nonneg hx) hstep.le)
  · refine mul_nonneg_of_nonpos_of_nonpos (Int.cast_nonpos.mpr ?_) hx
    exact nearest_nonpos (div_nonpos_of_nonpos_of_nonneg (shrink_nonpos hthreshold hx) hstep.le)

/-- With the step of a largest magnitude, no number is stored beyond the multiple `n`. -/
theorem abs_nearest_div_le {n : ℤ} (hn : 0 < n) (htop : 0 < top) (hx : |x| ≤ top) :
    |nearest (x / (top / n))| ≤ n := by
  have hn : (0 : K) < n := Int.cast_pos.mpr hn
  apply abs_nearest_le
  rw [abs_div, abs_of_pos (div_pos htop hn), div_le_iff₀ (div_pos htop hn), mul_div_cancel₀ top hn.ne']
  exact hx

/-- The numbers of largest magnitude are stored as this multiple. -/
theorem abs_nearest_div_eq {n : ℤ} (hn : 0 < n) (htop : 0 < top) (hx : |x| = top) :
    nearest (x / (top / n)) = n ∨ nearest (x / (top / n)) = -n := by
  have hn : (n : K) ≠ 0 := (Int.cast_pos.mpr hn).ne'
  have hquotient : top / (top / n) = n := by rw [div_div_eq_mul_div, mul_div_cancel_left₀ _ htop.ne']
  rcases abs_eq htop.le |>.mp hx with rfl | rfl
  · left
    rw [hquotient, nearest_intCast]
  · right
    rw [neg_div, hquotient, ← Int.cast_neg, nearest_intCast]

end AdaptiveLowpan.Quantiser
