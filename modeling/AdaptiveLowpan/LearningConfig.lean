import AdaptiveLowpan.ConfigPolicy
import AdaptiveLowpan.HmmTables

/-! # What the validator promises to the learning components

In exact arithmetic. A configuration with rational numbers is also one with real numbers,
and the validator says the same about both. -/

namespace AdaptiveLowpan
open CDouble

/-- A loop whose body returns what a function computes returns what the fold computes. -/
theorem foldlM_eq_foldl_of_ok {α β ε : Type} {f : β → α → Except ε β} {g : β → α → β}
    {xs : List α} {b r : β} (hbody : ∀ b x b', f b x = .ok b' → b' = g b x)
    (h : xs.foldlM f b = .ok r) : r = xs.foldl g b := by
  induction xs generalizing b with
  | nil =>
    cases h
    rfl
  | cons x xs ih =>
    rw [List.foldlM_cons] at h
    cases hx : f b x with
    | error e =>
      rw [hx] at h
      cases h
    | ok b' =>
      rw [hx] at h
      rw [List.foldl_cons, ← hbody b x b' hx]
      exact ih h

theorem foldlM_map_eq {α β γ ε : Type} {f : β → α → Except ε β} {g : γ → α → Except ε γ}
    (c : β → γ) (hbody : ∀ b x, g (c b) x = (f b x).map c) (xs : List α) (b : β) :
    xs.foldlM g (c b) = (xs.foldlM f b).map c := by
  induction xs generalizing b with
  | nil => rfl
  | cons x xs ih =>
    rw [List.foldlM_cons, List.foldlM_cons, hbody]
    cases f b x with
    | error e => rfl
    | ok b' => exact ih b'

theorem mem_allMetrics (metric : AdaptiveMetric) : metric ∈ AdaptiveMetric.all := by
  cases metric <;> decide

def AdaptiveConfig.map {D E : Type} (f : D → E) (config : AdaptiveConfig D) :
    AdaptiveConfig E where
  baselineAlpha := f config.baselineAlpha
  baselineEpsilon := f config.baselineEpsilon
  emissionAlpha := f config.emissionAlpha
  transitionForgetting := f config.transitionForgetting
  transitionSmoothing := f config.transitionSmoothing
  transitionPriorStrength := f config.transitionPriorStrength
  minEmissionVariance := f config.minEmissionVariance
  recoveryHold := config.recoveryHold
  initialProbability := fun state => f (config.initialProbability state)
  transitionPrior := fun row column => f (config.transitionPrior row column)
  emissionMean := fun state metric => f (config.emissionMean state metric)
  emissionVariance := fun state metric => f (config.emissionVariance state metric)
  windowSize := config.windowSize
  waveletLevels := config.waveletLevels
  thresholdGain := fun state => f (config.thresholdGain state)
  quantBits := config.quantBits
  blockSzx := config.blockSzx
  samplingFactor := fun state => f (config.samplingFactor state)
  uriPath := config.uriPath
  contentFormat := config.contentFormat

section Exact

variable [MathFunctions]

/-- The bounds of an accepted configuration on its learning parameters and tables. -/
structure LearningAccepted (config : AdaptiveConfig ℝ) : Prop where
  baselineAlpha : config.baselineAlpha ∈ Set.Ioo 0 1
  emissionAlpha : config.emissionAlpha ∈ Set.Ioo 0 1
  transitionForgetting : config.transitionForgetting ∈ Set.Ioc 0 1
  transitionSmoothing_nonneg : 0 ≤ config.transitionSmoothing
  transitionPriorStrength_pos : 0 < config.transitionPriorStrength
  minEmissionVariance_pos : 0 < config.minEmissionVariance
  emissionVariance_pos : ∀ state metric, 0 < config.emissionVariance state metric
  transitionPrior_nonneg : ∀ row column, 0 ≤ config.transitionPrior row column
  transitionPrior_pos : ∀ row, 0 < ∑ column, config.transitionPrior row column
  initialProbability_pos : 0 < ∑ state, config.initialProbability state

theorem lit_zero : (lit 0 : ℝ) = 0 := Rat.cast_zero

theorem lit_one : (lit 1 : ℝ) = 1 := Rat.cast_one

theorem validateState_eq_ok {config : AdaptiveConfig ℝ} {state : AdaptiveState} {total total' : ℝ}
    (h : validateState config state total = .ok total') :
    (∀ metric, 0 < config.emissionVariance state metric) ∧
      (∀ column, 0 ≤ config.transitionPrior state column) ∧
      0 < ∑ column, config.transitionPrior state column ∧
      total' = total + config.initialProbability state := by
  rw [validateState] at h
  split at h
  · cases h
  split at h
  · cases h
  rename_i hvariance
  generalize hrow : AdaptiveState.all.foldlM (fun row column =>
      if config.transitionPrior state column < lit 0 then
        (throw ⟨.range, "negative transition probability"⟩ : Except ConfigError ℝ)
      else pure (row + config.transitionPrior state column)) (lit 0) = result at h
  cases result with
  | error e => cases h
  | ok row =>
    have hsum : row = stateSum (config.transitionPrior state) := by
      refine foldlM_eq_foldl_of_ok ?_ hrow
      intro b x b' hbody
      split at hbody
      · cases hbody
      · cases hbody
        rfl
    change (if row ≤ lit 0 then _ else _) = _ at h
    split at h
    · cases h
    rename_i hmass
    cases h
    refine ⟨?_, ?_, ?_, rfl⟩
    · intro metric
      by_contra hle
      apply hvariance
      refine ⟨metric, mem_allMetrics metric, ?_⟩
      rw [lit_zero]
      exact not_lt.mp hle
    · intro column
      obtain ⟨b₁, b₂, hbody⟩ := exists_of_foldlM_eq_ok hrow column (mem_all column)
      split at hbody
      · cases hbody
      · rename_i hsign
        rw [lit_zero] at hsign
        exact not_lt.mp hsign
    · rw [lit_zero, hsum, stateSum_eq] at hmass
      exact not_le.mp hmass

theorem learningAccepted_of_validate {config : AdaptiveConfig ℝ}
    (h : configValidate config = .ok ()) : LearningAccepted config := by
  rw [configValidate] at h
  split at h
  · cases h
  rename_i hlearning
  split at h
  · cases h
  split at h
  · cases h
  generalize htotal : AdaptiveState.all.foldlM
      (fun total state => validateState config state total) (lit 0) = result at h
  cases result with
  | error e => cases h
  | ok total =>
    have hsum : total = stateSum config.initialProbability :=
      foldlM_eq_foldl_of_ok (fun _ _ _ hbody => (validateState_eq_ok hbody).2.2.2) htotal
    have hstate (state : AdaptiveState) : (∀ metric, 0 < config.emissionVariance state metric) ∧
        (∀ column, 0 ≤ config.transitionPrior state column) ∧
        0 < ∑ column, config.transitionPrior state column := by
      obtain ⟨b₁, b₂, hbody⟩ := exists_of_foldlM_eq_ok htotal state (mem_all state)
      obtain ⟨hvariance, hsign, hmass, -⟩ := validateState_eq_ok hbody
      exact ⟨hvariance, hsign, hmass⟩
    change (if total ≤ lit 0 then _ else _) = _ at h
    split at h
    · cases h
    rename_i hmass
    rw [lit_zero, hsum, stateSum_eq] at hmass
    simp only [lit_zero, lit_one, not_or, not_le, not_lt, ge_iff_le, gt_iff_lt] at hlearning
    obtain ⟨halpha, halpha', hrate, hrate', hforget, hforget', hsmooth, hstrength, hmin⟩ :=
      hlearning
    exact ⟨⟨halpha, halpha'⟩, ⟨hrate, hrate'⟩, ⟨hforget, hforget'⟩, hsmooth, hstrength, hmin,
      fun state => (hstate state).1, fun row => (hstate row).2.1, fun row => (hstate row).2.2,
      not_le.mp hmass⟩

/-! ## Rational configurations -/

def AdaptiveConfig.toReal (config : AdaptiveConfig ℚ) : AdaptiveConfig ℝ :=
  config.map fun q : ℚ => (q : ℝ)

theorem cast_lt_lit (x q : ℚ) : (x : ℝ) < lit q ↔ x < lit q := Rat.cast_lt

theorem cast_le_lit (x q : ℚ) : (x : ℝ) ≤ lit q ↔ x ≤ lit q := Rat.cast_le

theorem lit_lt_cast (x q : ℚ) : (lit q : ℝ) < x ↔ lit q < x := Rat.cast_lt

theorem lit_le_cast (x q : ℚ) : (lit q : ℝ) ≤ x ↔ lit q ≤ x := Rat.cast_le

theorem validateState_toReal (config : AdaptiveConfig ℚ) (state : AdaptiveState) (total : ℚ) :
    validateState config.toReal state (total : ℝ) =
      (validateState config state total).map fun q : ℚ => (q : ℝ) := by
  have hrow : AdaptiveState.all.foldlM (fun row column =>
        if config.toReal.transitionPrior state column < lit 0 then
          (throw ⟨.range, "negative transition probability"⟩ : Except ConfigError ℝ)
        else pure (row + config.toReal.transitionPrior state column)) (lit 0) =
      (AdaptiveState.all.foldlM (fun row column =>
        if config.transitionPrior state column < lit 0 then
          (throw ⟨.range, "negative transition probability"⟩ : Except ConfigError ℚ)
        else pure (row + config.transitionPrior state column)) (lit 0)).map
          fun q : ℚ => (q : ℝ) := by
    refine foldlM_map_eq (fun q : ℚ => (q : ℝ)) ?_ _ (lit 0)
    intro row column
    by_cases h : config.transitionPrior state column < lit 0
    · rw [if_pos h]
      exact if_pos ((cast_lt_lit _ 0).mpr h)
    · rw [if_neg h]
      refine (if_neg (mt (cast_lt_lit _ 0).mp h)).trans ?_
      exact congrArg Except.ok (Rat.cast_add row _).symm
  rw [validateState, validateState]
  have hpolicy : (config.toReal.thresholdGain state < lit 0 ∨
      config.toReal.quantBits state < 2 ∨ config.toReal.quantBits state > 15 ∨
      config.toReal.blockSzx state > 6 ∨ config.toReal.samplingFactor state ≤ lit 0 ∨
      config.toReal.samplingFactor state > lit 1) ↔
      (config.thresholdGain state < lit 0 ∨ config.quantBits state < 2 ∨
      config.quantBits state > 15 ∨ config.blockSzx state > 6 ∨
      config.samplingFactor state ≤ lit 0 ∨ config.samplingFactor state > lit 1) :=
    or_congr (cast_lt_lit _ 0) (or_congr Iff.rfl (or_congr Iff.rfl (or_congr Iff.rfl
      (or_congr (cast_le_lit _ 0) (lit_lt_cast _ 1)))))
  have hvariance : (∃ metric ∈ AdaptiveMetric.all,
      config.toReal.emissionVariance state metric ≤ lit 0) ↔
      ∃ metric ∈ AdaptiveMetric.all, config.emissionVariance state metric ≤ lit 0 :=
    exists_congr fun metric => and_congr Iff.rfl (cast_le_lit _ 0)
  by_cases hbad : config.thresholdGain state < lit 0 ∨ config.quantBits state < 2 ∨
      config.quantBits state > 15 ∨ config.blockSzx state > 6 ∨
      config.samplingFactor state ≤ lit 0 ∨ config.samplingFactor state > lit 1
  · rw [if_pos hbad, if_pos (hpolicy.mpr hbad)]
    rfl
  rw [if_neg hbad, if_neg (mt hpolicy.mp hbad)]
  by_cases hzero : ∃ metric ∈ AdaptiveMetric.all, config.emissionVariance state metric ≤ lit 0
  · rw [if_pos hzero, if_pos (hvariance.mpr hzero)]
    rfl
  rw [if_neg hzero, if_neg (mt hvariance.mp hzero)]
  refine (congrArg (· >>= _) hrow).trans ?_
  cases AdaptiveState.all.foldlM (fun row column =>
      if config.transitionPrior state column < lit 0 then
        (throw ⟨.range, "negative transition probability"⟩ : Except ConfigError ℚ)
      else pure (row + config.transitionPrior state column)) (lit 0) with
  | error e => rfl
  | ok row =>
    change (if (row : ℝ) ≤ lit 0 then _ else _) = Except.map _ (if row ≤ lit 0 then _ else _)
    by_cases hmass : row ≤ lit 0
    · rw [if_pos hmass, if_pos ((cast_le_lit row 0).mpr hmass)]
      rfl
    · rw [if_neg hmass, if_neg (mt (cast_le_lit row 0).mp hmass)]
      exact congrArg Except.ok (Rat.cast_add total _).symm

/-- The validator decides the same about a rational configuration in both arithmetics. -/
theorem configValidate_toReal (config : AdaptiveConfig ℚ) :
    configValidate config.toReal = configValidate config := by
  have htotal : AdaptiveState.all.foldlM
        (fun total state => validateState config.toReal state total) (lit 0) =
      (AdaptiveState.all.foldlM (fun total state => validateState config state total)
        (lit 0)).map fun q : ℚ => (q : ℝ) :=
    foldlM_map_eq (fun q : ℚ => (q : ℝ))
      (fun total state => validateState_toReal config state total) _ (lit 0)
  have hlearning : (config.toReal.baselineAlpha ≤ lit 0 ∨ config.toReal.baselineAlpha ≥ lit 1 ∨
      config.toReal.emissionAlpha ≤ lit 0 ∨ config.toReal.emissionAlpha ≥ lit 1 ∨
      config.toReal.transitionForgetting ≤ lit 0 ∨ config.toReal.transitionForgetting > lit 1 ∨
      config.toReal.transitionSmoothing < lit 0 ∨
      config.toReal.transitionPriorStrength ≤ lit 0 ∨
      config.toReal.minEmissionVariance ≤ lit 0) ↔
      (config.baselineAlpha ≤ lit 0 ∨ config.baselineAlpha ≥ lit 1 ∨
      config.emissionAlpha ≤ lit 0 ∨ config.emissionAlpha ≥ lit 1 ∨
      config.transitionForgetting ≤ lit 0 ∨ config.transitionForgetting > lit 1 ∨
      config.transitionSmoothing < lit 0 ∨ config.transitionPriorStrength ≤ lit 0 ∨
      config.minEmissionVariance ≤ lit 0) :=
    or_congr (cast_le_lit _ 0) (or_congr (lit_le_cast _ 1) (or_congr (cast_le_lit _ 0)
      (or_congr (lit_le_cast _ 1) (or_congr (cast_le_lit _ 0) (or_congr (lit_lt_cast _ 1)
      (or_congr (cast_lt_lit _ 0) (or_congr (cast_le_lit _ 0) (cast_le_lit _ 0))))))))
  rw [configValidate, configValidate]
  refine if_congr hlearning rfl (if_congr Iff.rfl rfl (if_congr Iff.rfl rfl ?_))
  refine (congrArg (· >>= _) htotal).trans ?_
  cases AdaptiveState.all.foldlM (fun total state => validateState config state total) (lit 0) with
  | error e => rfl
  | ok total => exact if_congr (cast_le_lit total 0) rfl rfl

end Exact

end AdaptiveLowpan
