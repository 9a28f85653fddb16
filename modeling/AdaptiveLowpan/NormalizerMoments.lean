import AdaptiveLowpan.NormalizerDomain
import AdaptiveLowpan.WeightedMoments

/-! # What the baseline is

In exact arithmetic the normaliser keeps, one metric vector at a time, the exponentially
weighted mean of all of them and their spread around it, which the floor can only raise. -/

namespace AdaptiveLowpan
open CDouble WeightedMoments

noncomputable def Normalizer.nextVariance (n : Normalizer ℝ) (metric : AdaptiveMetric) (raw : ℝ) :
    ℝ :=
  (1 - n.alpha) * (n.variance metric + n.alpha * (raw - n.mean metric) ^ 2)

/-- The floor takes the place of the variance. -/
def Normalizer.FloorFires (n : Normalizer ℝ) (metric : AdaptiveMetric) (raw : ℝ) : Prop :=
  n.nextVariance metric raw < n.epsilon

/-- What the variance is where the floor has not fired: that of the first value, which fades, and
the spread of all of them. -/
noncomputable def batchVariance (alpha : ℝ) (x : ℕ → ℝ) (n : ℕ) : ℝ :=
  (1 - alpha) ^ n * max 1 (0.1 * |x 0|) ^ 2 + weightedSpread alpha x n

theorem batchVariance_succ (alpha : ℝ) (x : ℕ → ℝ) (n : ℕ) :
    batchVariance alpha x (n + 1) = (1 - alpha) *
      (batchVariance alpha x n + alpha * (x (n + 1) - weightedMean alpha x n) ^ 2) := by
  rw [batchVariance, batchVariance, weightedSpread_succ]
  ring

section
variable [MathFunctions] {n : Normalizer ℝ}

/-! ## One call -/

theorem updatedVariance_eq_max (metric : AdaptiveMetric) (raw : ℝ) :
    updatedVariance n metric raw = max (n.nextVariance metric raw) n.epsilon := by
  have hnext : (lit 1 - n.alpha) * (n.variance metric + n.alpha * (raw - n.mean metric) *
      (raw - n.mean metric)) = n.nextVariance metric raw := by
    rw [lit_one, Normalizer.nextVariance]
    ring
  rw [updatedVariance, hnext]
  split
  · rename_i hfires
    exact (max_eq_right (le_of_lt hfires)).symm
  · rename_i hnot
    exact (max_eq_left (not_lt.mp hnot)).symm

/-- The cut at six standard deviations, on either side of the sign of the goodput. -/
theorem clipValue_eq (metric : AdaptiveMetric) (z : ℝ) :
    clipValue metric z =
      if metric = .goodput then -max (-6) (min 6 z) else max (-6) (min 6 z) := by
  have hsix : (lit 6 : ℝ) = 6 := by
    rw [lit_real]
    norm_num
  have hminus : (lit (-6) : ℝ) = -6 := by
    rw [lit_real]
    norm_num
  have hcut (signed : ℝ) : (let z := if signed > lit 6 then lit 6 else signed
      if z < lit (-6) then lit (-6) else z) = max (-6) (min 6 signed) := by
    simp only [hsix, hminus]
    by_cases hhigh : signed > 6
    · rw [if_pos hhigh, if_neg (by norm_num), min_eq_left (le_of_lt hhigh),
        max_eq_right (by norm_num)]
    rw [if_neg hhigh, min_eq_right (not_lt.mp hhigh)]
    split
    · rename_i hlow
      exact (max_eq_left (le_of_lt hlow)).symm
    · rename_i hlow
      exact (max_eq_right (not_lt.mp hlow)).symm
  refine (hcut _).trans ?_
  split
  · have hneg : -max (-6) (min 6 z) = min 6 (max (-6) (-z)) := by
      rw [← min_neg_neg, neg_neg, ← max_neg_neg]
    rw [hneg, max_min_distrib_left, max_eq_right (by norm_num : (-6 : ℝ) ≤ 6)]
  · rfl

theorem initialScale_eq_max (x : ℝ) : initialScale x = max 1 (0.1 * |x|) := by
  have hscale : fabs x * lit (1 / 10) = 0.1 * |x| := by
    change |x| * ((1 / 10 : ℚ) : ℝ) = _
    push_cast
    ring
  rw [initialScale, hscale, lit_one]
  split
  · rename_i hsmall
    exact (max_eq_left (le_of_lt hsmall)).symm
  · rename_i hnot
    exact (max_eq_right (not_lt.mp hnot)).symm

/-! ## Runs -/

noncomputable def baseline (alpha epsilon : ℝ) (raws : ℕ → NetworkMetrics ℝ) (n : ℕ) :
    Normalizer ℝ :=
  normalizerTrace (normalizerInit alpha epsilon) raws (n + 1)

variable {alpha epsilon : ℝ} {raws : ℕ → NetworkMetrics ℝ} {n : ℕ}

theorem baseline_zero : baseline alpha epsilon raws 0 =
    ⟨raws 0, fun metric => initialScale (raws 0 metric) * initialScale (raws 0 metric), alpha,
      epsilon, true⟩ := by
  rw [baseline, normalizerTrace, normalizerTrace, normalizerUpdate_first (fun _ => rfl) rfl]
  rfl

theorem baseline_initialized : (baseline alpha epsilon raws n).initialized = true := by
  induction n with
  | zero => rw [baseline_zero]
  | succ n ih =>
    rw [baseline, normalizerTrace, ← baseline, normalizerUpdate_later (fun _ => rfl) ih]
    exact ih

theorem normalizerUpdate_baseline (raw : NetworkMetrics ℝ) :
    normalizerUpdate (baseline alpha epsilon raws n) raw =
      (.ok fun metric => normalizedValue (baseline alpha epsilon raws n) metric (raw metric),
        { baseline alpha epsilon raws n with
          mean := fun metric => (baseline alpha epsilon raws n).mean metric +
            (baseline alpha epsilon raws n).alpha *
              (raw metric - (baseline alpha epsilon raws n).mean metric)
          variance := fun metric =>
            updatedVariance (baseline alpha epsilon raws n) metric (raw metric) }) :=
  normalizerUpdate_later (fun _ => rfl) baseline_initialized

theorem baseline_succ : baseline alpha epsilon raws (n + 1) =
    (normalizerUpdate (baseline alpha epsilon raws n) (raws (n + 1))).2 := rfl

theorem baseline_parameters : (baseline alpha epsilon raws n).alpha = alpha ∧
    (baseline alpha epsilon raws n).epsilon = epsilon := by
  induction n with
  | zero =>
    rw [baseline_zero]
    exact ⟨rfl, rfl⟩
  | succ n ih =>
    rw [baseline_succ, normalizerUpdate_baseline]
    exact ih

theorem baseline_mean (metric : AdaptiveMetric) :
    (baseline alpha epsilon raws n).mean metric = weightedMean alpha (raws · metric) n := by
  induction n with
  | zero => rw [baseline_zero, weightedMean_zero]
  | succ n ih =>
    rw [baseline_succ, normalizerUpdate_baseline, weightedMean_succ]
    simp only [baseline_parameters.1, ih]

theorem variance_baseline_zero (metric : AdaptiveMetric) :
    (baseline alpha epsilon raws 0).variance metric = batchVariance alpha (raws · metric) 0 := by
  rw [baseline_zero, batchVariance, weightedSpread_zero, pow_zero, one_mul, add_zero, sq]
  simp only [initialScale_eq_max]

theorem variance_baseline_succ (metric : AdaptiveMetric) :
    (baseline alpha epsilon raws (n + 1)).variance metric =
      max ((baseline alpha epsilon raws n).nextVariance metric (raws (n + 1) metric)) epsilon := by
  rw [baseline_succ, normalizerUpdate_baseline]
  simp only [updatedVariance_eq_max, baseline_parameters.2]

theorem nextVariance_baseline (metric : AdaptiveMetric) (raw : ℝ) :
    (baseline alpha epsilon raws n).nextVariance metric raw = (1 - alpha) *
      ((baseline alpha epsilon raws n).variance metric +
        alpha * (raw - weightedMean alpha (raws · metric) n) ^ 2) := by
  rw [Normalizer.nextVariance, baseline_parameters.1, baseline_mean]

theorem batchVariance_le (halpha : alpha ∈ Set.Ioo 0 1) (metric : AdaptiveMetric) :
    batchVariance alpha (raws · metric) n ≤ (baseline alpha epsilon raws n).variance metric := by
  induction n with
  | zero => exact (variance_baseline_zero metric).ge
  | succ n ih =>
    have hkept : 0 ≤ 1 - alpha := sub_nonneg.mpr halpha.2.le
    rw [variance_baseline_succ, nextVariance_baseline, batchVariance_succ]
    refine le_max_of_le_left (mul_le_mul_of_nonneg_left ?_ hkept)
    exact add_le_add_left ih _

theorem variance_eq_batchVariance (metric : AdaptiveMetric)
    (hfloor : ∀ t < n, ¬(baseline alpha epsilon raws t).FloorFires metric (raws (t + 1) metric)) :
    (baseline alpha epsilon raws n).variance metric = batchVariance alpha (raws · metric) n := by
  induction n with
  | zero => exact variance_baseline_zero metric
  | succ n ih =>
    have hlast := hfloor n (Nat.lt_succ_self n)
    rw [Normalizer.FloorFires, baseline_parameters.2] at hlast
    rw [variance_baseline_succ, max_eq_left (not_lt.mp hlast), nextVariance_baseline,
      ih fun t ht => hfloor t (Nat.lt_succ_of_lt ht), batchVariance_succ]

theorem normalizerUpdate_baseline_output (raw : NetworkMetrics ℝ) :
    (normalizerUpdate (baseline alpha epsilon raws n) raw).1 = .ok fun metric =>
      let z := (raw metric - weightedMean alpha (raws · metric) n) /
        √((baseline alpha epsilon raws n).variance metric + epsilon)
      if metric = .goodput then -max (-6) (min 6 z) else max (-6) (min 6 z) := by
  rw [normalizerUpdate_baseline]
  refine congrArg Except.ok (funext fun metric => ?_)
  rw [normalizedValue_eq, clipValue_eq, baseline_mean, baseline_parameters.2]
  rfl

/-- After any run, the baseline is the exponentially weighted statistics of the batch. -/
theorem baseline_statistics (halpha : alpha ∈ Set.Ioo 0 1) (raws : ℕ → NetworkMetrics ℝ) (n : ℕ)
    (metric : AdaptiveMetric) :
    let x := fun i => raws i metric
    let run := normalizerTrace (normalizerInit alpha epsilon) raws
    (run (n + 1)).mean metric = weightedMean alpha x n ∧
      batchVariance alpha x n ≤ (run (n + 1)).variance metric ∧
      ((∀ t ∈ Set.Icc 1 n, ¬(run t).FloorFires metric (x t)) →
        (run (n + 1)).variance metric = batchVariance alpha x n) ∧
      (1 ≤ n → ∃ normalized, (normalizerUpdate (run n) (raws n)).1 = .ok normalized ∧
        let z := (x n - weightedMean alpha x (n - 1)) / √((run n).variance metric + epsilon)
        normalized metric =
          if metric = .goodput then -max (-6) (min 6 z) else max (-6) (min 6 z)) := by
  refine ⟨baseline_mean metric, batchVariance_le halpha metric, fun hfloor => ?_, fun hn => ?_⟩
  · refine variance_eq_batchVariance metric fun t ht => ?_
    exact hfloor (t + 1) ⟨Nat.le_add_left 1 t, ht⟩
  · obtain ⟨n, rfl⟩ := Nat.exists_eq_add_of_le' hn
    exact ⟨_, normalizerUpdate_baseline_output (raws (n + 1)), rfl⟩

end

theorem baseline_statistics_twoVectors :
    letI : MathFunctions := ⟨Real.log, Real.exp⟩
    let n := normalizerTrace (normalizerInit (1 / 2 : ℝ) 1) (fun t _ => 2 * t) 2
    n.mean .loss = 1 ∧ 3 / 2 ≤ n.variance .loss := by
  let _ : MathFunctions := ⟨Real.log, Real.exp⟩
  have halpha : (1 / 2 : ℝ) ∈ Set.Ioo 0 1 := by
    constructor <;> norm_num
  obtain ⟨hmean, hvariance, -, -⟩ := baseline_statistics halpha (fun t _ => 2 * t) 1 .loss
  have hone : weightedMean (1 / 2 : ℝ) (fun t => 2 * t) 1 = 1 := by
    rw [weightedMean_succ, weightedMean_zero]
    norm_num
  have hbatch : batchVariance (1 / 2) (fun t => 2 * t) 1 = 3 / 2 := by
    rw [batchVariance, weightedSpread_succ, weightedSpread_zero, weightedMean_zero]
    norm_num
  exact ⟨hmean.trans hone, hbatch.symm.trans_le hvariance⟩

end AdaptiveLowpan
