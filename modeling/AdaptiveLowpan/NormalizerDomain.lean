import AdaptiveLowpan.HmmModel
import AdaptiveLowpan.LearningConfig
import Mathlib.Algebra.Order.Archimedean.Basic

/-! # The domain of the normaliser

Runs of any length in exact arithmetic. On a quiet link the variance decays towards its
floor, so that the sign of the floor decides whether a run can leave the domain. -/

namespace AdaptiveLowpan
open CDouble

def normalizerTrace {D : Type} [CDouble D] (n : Normalizer D) (raws : ℕ → NetworkMetrics D) :
    ℕ → Normalizer D
  | 0 => n
  | t + 1 => (normalizerUpdate (normalizerTrace n raws t) (raws t)).2

def configNormalizer {D : Type} [CDouble D] (config : AdaptiveConfig D) : Normalizer D :=
  normalizerInit config.baselineAlpha config.baselineEpsilon

def Normalizer.guarded (n : Normalizer ℝ) : Normalizer Guarded where
  mean := fun metric => .value (n.mean metric)
  variance := fun metric => .value (n.variance metric)
  alpha := .value n.alpha
  epsilon := .value n.epsilon
  initialized := n.initialized

section Calls

variable {D : Type} [CDouble D] {n : Normalizer D} {raw : NetworkMetrics D}

theorem normalizerUpdate_first (hfinite : ∀ metric, isfinite (raw metric) = true)
    (h : n.initialized = false) :
    normalizerUpdate n raw = (.ok fun _ => lit 0,
      { n with
        mean := raw
        variance := fun metric => initialScale (raw metric) * initialScale (raw metric)
        initialized := true }) := by
  have hall : ¬∃ metric ∈ AdaptiveMetric.all, ¬isfinite (raw metric) := by
    rintro ⟨metric, -, hnot⟩
    exact hnot (hfinite metric)
  rw [normalizerUpdate, if_neg hall, h]
  rfl

theorem normalizerUpdate_later (hfinite : ∀ metric, isfinite (raw metric) = true)
    (h : n.initialized = true) :
    normalizerUpdate n raw = (.ok fun metric => normalizedValue n metric (raw metric),
      { n with
        mean := fun metric => n.mean metric + n.alpha * (raw metric - n.mean metric)
        variance := fun metric => updatedVariance n metric (raw metric) }) := by
  have hall : ¬∃ metric ∈ AdaptiveMetric.all, ¬isfinite (raw metric) := by
    rintro ⟨metric, -, hnot⟩
    exact hnot (hfinite metric)
  rw [normalizerUpdate, if_neg hall, h]
  rfl

/-- The sign of the goodput and the cut at six standard deviations. -/
def clipValue (metric : AdaptiveMetric) (z : D) : D :=
  let z := if metric = .goodput then -z else z
  let z := if z > lit 6 then lit 6 else z
  if z < lit (-6) then lit (-6) else z

theorem normalizedValue_eq (n : Normalizer D) (metric : AdaptiveMetric) (x : D) :
    normalizedValue n metric x =
      clipValue metric ((x - n.mean metric) / sqrt (n.variance metric + n.epsilon)) := rfl

end Calls

section Exact

variable [MathFunctions]

/-- What a call promises: square roots of and divisions by positive numbers only,
positive variances, and an output in the range of the metrics. -/
structure NormalizerSafe (n : Normalizer ℝ) (raw : NetworkMetrics ℝ) : Prop where
  inDomain : normalizerUpdate n.guarded raw.guarded =
    ((normalizerUpdate n raw).1.map NetworkMetrics.guarded, (normalizerUpdate n raw).2.guarded)
  variance_pos : ∀ metric, 0 < (normalizerUpdate n raw).2.variance metric
  output : ∃ normalized, (normalizerUpdate n raw).1 = .ok normalized ∧
    ∀ metric, normalized metric ∈ Set.Icc (-6) 6

variable {n : Normalizer ℝ} {raw : NetworkMetrics ℝ}

/-! ## The domain of one call -/

theorem one_le_initialScale (x : ℝ) : 1 ≤ initialScale x := by
  rw [initialScale, lit_one]
  split
  · exact le_refl 1
  · rename_i hnot
    exact not_lt.mp hnot

theorem initialScale_value (x : ℝ) : initialScale (Guarded.value x) = .value (initialScale x) :=
  Guarded.ite_value Iff.rfl _ _

theorem clipValue_mem (metric : AdaptiveMetric) (z : ℝ) : clipValue metric z ∈ Set.Icc (-6) 6 := by
  have hsix : (lit 6 : ℝ) = 6 := by
    rw [lit_real]
    norm_num
  have hminus : (lit (-6) : ℝ) = -6 := by
    rw [lit_real]
    norm_num
  rw [clipValue, hsix, hminus]
  generalize (if metric = .goodput then -z else z) = signed
  by_cases hhigh : signed > 6
  · rw [if_pos hhigh, if_neg (by norm_num)]
    constructor <;> norm_num
  rw [if_neg hhigh]
  by_cases hlow : signed < -6
  · rw [if_pos hlow]
    constructor <;> norm_num
  · rw [if_neg hlow]
    exact ⟨not_lt.mp hlow, not_lt.mp hhigh⟩

theorem clipValue_value (metric : AdaptiveMetric) (z : ℝ) :
    clipValue metric (Guarded.value z) = .value (clipValue metric z) := by
  have hsign : (if metric = .goodput then -Guarded.value z else .value z) =
      Guarded.value (if metric = .goodput then -z else z) := Guarded.ite_value Iff.rfl _ _
  have hcut (signed : ℝ) : (if Guarded.value signed > lit 6 then lit 6 else .value signed) =
      Guarded.value (if signed > lit 6 then lit 6 else signed) := Guarded.ite_value Iff.rfl _ _
  rw [clipValue, clipValue, hsign, hcut]
  exact Guarded.ite_value Iff.rfl _ _

/-- What is undefined stays so: no comparison hides it. -/
theorem clipValue_undefined (metric : AdaptiveMetric) :
    clipValue metric Guarded.undefined = .undefined := by
  have hsign : (if metric = .goodput then -Guarded.undefined else .undefined) =
      Guarded.undefined := by
    split
    · rfl
    · rfl
  have hhigh : ¬Guarded.undefined > lit 6 := not_false
  have hlow : ¬Guarded.undefined < lit (-6) := not_false
  rw [clipValue, hsign, if_neg hhigh, if_neg hlow]

/-- A metric stays in the domain exactly with a positive sum of variance and epsilon. -/
theorem normalizedValue_value_iff (metric : AdaptiveMetric) (x : ℝ) :
    normalizedValue n.guarded metric (.value x) = .value (normalizedValue n metric x) ↔
      0 < n.variance metric + n.epsilon := by
  rw [normalizedValue_eq, normalizedValue_eq]
  change clipValue metric (Guarded.value (x - n.mean metric) /
    sqrt (Guarded.value (n.variance metric + n.epsilon))) = _ ↔ _
  constructor
  · intro heq
    by_contra hnot
    have hroot : sqrt (Guarded.value (n.variance metric + n.epsilon)) = .undefined := if_neg hnot
    have hz : Guarded.value (x - n.mean metric) / Guarded.undefined = .undefined := rfl
    rw [hroot, hz, clipValue_undefined] at heq
    cases heq
  · intro hpos
    have hroot : (0 : ℝ) < sqrt (n.variance metric + n.epsilon) := Real.sqrt_pos.mpr hpos
    rw [Guarded.sqrt_value hpos, Guarded.value_div _ hroot, clipValue_value]

theorem updatedVariance_value (metric : AdaptiveMetric) (x : ℝ) :
    updatedVariance n.guarded metric (.value x) = .value (updatedVariance n metric x) :=
  Guarded.ite_value Iff.rfl _ _

theorem normalizerUpdate_first_inDomain (raw : NetworkMetrics ℝ) (h : n.initialized = false) :
    normalizerUpdate n.guarded raw.guarded =
      ((normalizerUpdate n raw).1.map NetworkMetrics.guarded,
        (normalizerUpdate n raw).2.guarded) := by
  have hguarded : n.guarded.initialized = false := h
  rw [normalizerUpdate_first (fun _ => rfl) h, normalizerUpdate_first (fun _ => rfl) hguarded]
  simp only [NetworkMetrics.guarded, initialScale_value]
  rfl

theorem normalizerUpdate_later_inDomain (raw : NetworkMetrics ℝ) (h : n.initialized = true)
    (hpos : ∀ metric, 0 < n.variance metric + n.epsilon) :
    normalizerUpdate n.guarded raw.guarded =
      ((normalizerUpdate n raw).1.map NetworkMetrics.guarded,
        (normalizerUpdate n raw).2.guarded) := by
  have hguarded : n.guarded.initialized = true := h
  have hvalue (metric : AdaptiveMetric) := (normalizedValue_value_iff metric (raw metric)).mpr
    (hpos metric)
  rw [normalizerUpdate_later (fun _ => rfl) h, normalizerUpdate_later (fun _ => rfl) hguarded]
  simp only [NetworkMetrics.guarded, hvalue, updatedVariance_value]
  rfl

/-- A call outside the domain shows in its output. -/
theorem NormalizerSafe.pos_add {raw : NetworkMetrics ℝ} (h : NormalizerSafe n raw)
    (hinitialized : n.initialized = true) (metric : AdaptiveMetric) :
    0 < n.variance metric + n.epsilon := by
  have hguarded : n.guarded.initialized = true := hinitialized
  have hsame := congrArg Prod.fst h.inDomain
  rw [normalizerUpdate_later (fun _ => rfl) hinitialized,
    normalizerUpdate_later (fun _ => rfl) hguarded] at hsame
  injection hsame with hsame
  exact (normalizedValue_value_iff metric (raw metric)).mp (congrFun hsame metric)

/-! ## Runs -/

/-- The baseline that a run without a negative epsilon keeps. -/
structure Normalizer.Positive (n : Normalizer ℝ) : Prop where
  alpha : n.alpha ∈ Set.Ioo 0 1
  epsilon_nonneg : 0 ≤ n.epsilon
  variance_pos : n.initialized = true → ∀ metric, 0 < n.variance metric

theorem updatedVariance_pos (h : n.Positive) (hinitialized : n.initialized = true)
    (metric : AdaptiveMetric) (x : ℝ) : 0 < updatedVariance n metric x := by
  have hspread : 0 ≤ n.alpha * (x - n.mean metric) * (x - n.mean metric) := by
    rw [mul_assoc]
    exact mul_nonneg h.alpha.1.le (mul_self_nonneg _)
  have hold := h.variance_pos hinitialized metric
  have hkept : 0 < (1 - n.alpha) *
      (n.variance metric + n.alpha * (x - n.mean metric) * (x - n.mean metric)) :=
    mul_pos (sub_pos.mpr h.alpha.2) (add_pos_of_pos_of_nonneg hold hspread)
  rw [updatedVariance, lit_one]
  split
  · rename_i hfloor
    exact hkept.trans hfloor
  · exact hkept

/-- A call is safe and keeps the baseline, whatever the metrics are. -/
theorem Normalizer.Positive.update (h : n.Positive) (raw : NetworkMetrics ℝ) :
    NormalizerSafe n raw ∧ (normalizerUpdate n raw).2.Positive := by
  cases hinitialized : n.initialized with
  | false =>
    have hdomain := normalizerUpdate_first_inDomain raw hinitialized
    have hnext : normalizerUpdate n raw = _ :=
      normalizerUpdate_first (fun _ => rfl) hinitialized
    have hvariance (metric : AdaptiveMetric) :
        0 < initialScale (raw metric) * initialScale (raw metric) := by
      have hscale := zero_lt_one.trans_le (one_le_initialScale (raw metric))
      exact mul_pos hscale hscale
    have hzero : (lit 0 : ℝ) ∈ Set.Icc (-6) 6 := by
      rw [lit_zero]
      constructor <;> norm_num
    refine ⟨⟨hdomain, ?_, ?_⟩, ?_⟩
    · rw [hnext]
      exact hvariance
    · exact ⟨_, congrArg Prod.fst hnext, fun _ => hzero⟩
    · rw [hnext]
      exact ⟨h.alpha, h.epsilon_nonneg, fun _ => hvariance⟩
  | true =>
    have hpos (metric : AdaptiveMetric) : 0 < n.variance metric + n.epsilon :=
      add_pos_of_pos_of_nonneg (h.variance_pos hinitialized metric) h.epsilon_nonneg
    have hdomain := normalizerUpdate_later_inDomain raw hinitialized hpos
    have hnext : normalizerUpdate n raw = _ :=
      normalizerUpdate_later (fun _ => rfl) hinitialized
    have hvariance (metric : AdaptiveMetric) := updatedVariance_pos h hinitialized metric
      (raw metric)
    refine ⟨⟨hdomain, ?_, ?_⟩, ?_⟩
    · rw [hnext]
      exact hvariance
    · refine ⟨_, congrArg Prod.fst hnext, ?_⟩
      intro metric
      rw [normalizedValue_eq]
      exact clipValue_mem metric _
    · rw [hnext]
      exact ⟨h.alpha, h.epsilon_nonneg, fun _ => hvariance⟩

theorem Normalizer.Positive.trace (h : n.Positive) (raws : ℕ → NetworkMetrics ℝ) (t : ℕ) :
    (normalizerTrace n raws t).Positive := by
  induction t with
  | zero => exact h
  | succ t ih => exact (ih.update (raws t)).2

/-- On a link whose metrics do not move, nothing but the floor holds the variance up. -/
theorem normalizerTrace_quiet {alpha epsilon : ℝ} (halpha : alpha ∈ Set.Ioo 0 1)
    (hepsilon : epsilon < 0) (t : ℕ) :
    normalizerTrace (normalizerInit alpha epsilon) (fun _ _ => 0) (t + 1) =
      ⟨fun _ => 0, fun _ => (1 - alpha) ^ t, alpha, epsilon, true⟩ := by
  induction t with
  | zero =>
    have hscale : initialScale (0 : ℝ) = 1 := by
      have habs : fabs (0 : ℝ) * lit (1 / 10) = 0 := by
        change |(0 : ℝ)| * _ = 0
        rw [abs_zero]
        exact zero_mul _
      rw [initialScale, habs, lit_one]
      exact if_pos zero_lt_one
    have hvariance : (fun _ : AdaptiveMetric => initialScale (0 : ℝ) * initialScale (0 : ℝ)) =
        fun _ => (1 - alpha) ^ 0 := by
      funext metric
      rw [hscale, pow_zero]
      exact mul_one 1
    rw [normalizerTrace, normalizerTrace, normalizerUpdate_first (fun _ => rfl) rfl]
    exact congrArg (fun variance => (⟨fun _ => 0, variance, alpha, epsilon, true⟩ : Normalizer ℝ))
      hvariance
  | succ t ih =>
    have hmean : (0 : ℝ) + alpha * (0 - 0) = 0 := by ring
    have hvariance (metric : AdaptiveMetric) :
        updatedVariance ⟨fun _ => 0, fun _ => (1 - alpha) ^ t, alpha, epsilon, true⟩ metric 0 =
          (1 - alpha) ^ (t + 1) := by
      have hkept : (lit 1 - alpha) * ((1 - alpha) ^ t + alpha * (0 - 0) * (0 - 0)) =
          (1 - alpha) ^ (t + 1) := by
        rw [lit_one]
        ring
      have hpos : 0 < (1 - alpha) ^ (t + 1) := pow_pos (sub_pos.mpr halpha.2) _
      refine (if_neg ?_).trans hkept
      rw [hkept]
      exact not_lt.mpr (hepsilon.trans hpos).le
    rw [normalizerTrace, ih, normalizerUpdate_later (fun _ => rfl) rfl]
    refine congrArg₂ (fun mean variance =>
      (⟨mean, variance, alpha, epsilon, true⟩ : Normalizer ℝ)) ?_ ?_
    · funext metric
      exact hmean
    · funext metric
      exact hvariance metric

/-- The runs that an accepted configuration starts are safe exactly where its epsilon is
not negative, which the validator does not check. -/
theorem normalizer_safe_iff {config : AdaptiveConfig ℝ}
    (haccepted : configValidate config = .ok ()) :
    (∀ raws t, NormalizerSafe (normalizerTrace (configNormalizer config) raws t) (raws t)) ↔
      0 ≤ config.baselineEpsilon := by
  have halpha := (learningAccepted_of_validate haccepted).baselineAlpha
  constructor
  · intro hsafe
    by_contra hnot
    have hepsilon := not_le.mp hnot
    obtain ⟨t, ht⟩ := exists_pow_lt_of_lt_one (neg_pos.mpr hepsilon)
      (sub_lt_self 1 halpha.1)
    have hquiet := normalizerTrace_quiet halpha hepsilon t
    have hstep := hsafe (fun _ _ => 0) (t + 1)
    rw [configNormalizer, hquiet] at hstep
    have hpos := hstep.pos_add rfl .queue
    simp only at hpos
    linarith
  · intro hepsilon raws t
    have hpositive : (configNormalizer config).Positive :=
      ⟨halpha, hepsilon, fun hinitialized => by cases hinitialized⟩
    exact ((hpositive.trace raws t).update (raws t)).1

end Exact

theorem normalizer_safe_defaults :
    letI : MathFunctions := ⟨Real.log, Real.exp⟩
    NormalizerSafe (normalizerTrace (configNormalizer (configDefaults : AdaptiveConfig ℚ).toReal)
      (fun t _ => t) 5) (fun _ => 5) := by
  let _ : MathFunctions := ⟨Real.log, Real.exp⟩
  have haccepted : configValidate (configDefaults : AdaptiveConfig ℚ) = .ok () := by
    decide +kernel
  rw [← configValidate_toReal] at haccepted
  have hsign : 0 ≤ (configDefaults : AdaptiveConfig ℚ).baselineEpsilon := by decide +kernel
  have hsafe := (normalizer_safe_iff haccepted).mpr (Rat.cast_nonneg.mpr hsign)
  exact hsafe (fun t _ => t) 5

def negativeEpsilon : AdaptiveConfig ℚ := { configDefaults with baselineEpsilon := -1 }

/-- The validator accepts it, and the second of two equal vectors divides by zero. -/
theorem normalizer_negativeEpsilon :
    letI : MathFunctions := ⟨Real.log, Real.exp⟩
    configValidate negativeEpsilon.toReal = .ok () ∧
      ¬NormalizerSafe (normalizerTrace (configNormalizer negativeEpsilon.toReal)
        (fun _ _ => 0) 1) (fun _ => 0) := by
  let _ : MathFunctions := ⟨Real.log, Real.exp⟩
  have haccepted : configValidate negativeEpsilon = .ok () := by decide +kernel
  rw [← configValidate_toReal] at haccepted
  refine ⟨haccepted, ?_⟩
  intro hsafe
  have hepsilon : negativeEpsilon.toReal.baselineEpsilon = -1 := by
    change ((-1 : ℚ) : ℝ) = -1
    norm_num
  have hquiet := normalizerTrace_quiet (learningAccepted_of_validate haccepted).baselineAlpha
    (hepsilon.trans_lt neg_one_lt_zero) 0
  rw [configNormalizer, hquiet] at hsafe
  have hpos := hsafe.pos_add rfl .queue
  simp only [hepsilon, pow_zero] at hpos
  linarith

end AdaptiveLowpan
