import AdaptiveLowpan.CodecRoundTrip
import AdaptiveLowpan.LearningConfig
import AdaptiveLowpan.Quantiser
import AdaptiveLowpan.Reconstruction

/-! # Thresholding and quantisation over the real numbers

What a stored coefficient says of the coefficient that the forward transform returned. -/

namespace AdaptiveLowpan
open CheckedMemory CDouble CFloat Quantiser

theorem realLround_eq (x : ℝ) : realLround x = nearest x := by
  have hhalf : ((1 / 2 : ℚ) : ℝ) = 1 / 2 := by norm_num
  rw [realLround, nearest, hhalf, round_eq, round_eq]

section
variable [MathFunctions] [FloatPatterns]

/-! ## The threshold -/

theorem noiseSigma_nonneg (coefficients : List ℝ) (scratchCount : ℕ) :
    0 ≤ noiseSigma coefficients scratchCount := by
  rw [noiseSigma]
  simp only
  split
  · rw [lit_real, Rat.cast_zero]
  set details := ((coefficients.drop (coefficients.length / 2)).take
    (coefficients.length / 2)).map fabsf with hdetails
  set sorted := details.insertionSort (fun a b => (toDouble a : ℝ) ≤ toDouble b) with hsorted
  -- every entry is a magnitude
  have hentry (i : ℕ) : 0 ≤ sorted.getD i (zeroFloat : ℝ) := by
    rcases Nat.lt_or_ge i sorted.length with hi | hi
    · rw [List.getD_eq_getElem sorted _ hi]
      have hmem := (List.mem_insertionSort _).mp (List.getElem_mem hi)
      obtain ⟨c, -, hc⟩ := List.mem_map.mp hmem
      rw [← hc]
      exact abs_nonneg c
    · rw [List.getD_eq_default sorted _ hi, zeroFloat_real]
  have hmad : (0 : ℝ) ≤ ((0.6744897501960817 : ℚ) : ℝ) := by norm_num
  have hhalf : (0 : ℝ) ≤ ((0.5 : ℚ) : ℝ) := by norm_num
  refine div_nonneg ?_ hmad
  split
  · exact hentry _
  · exact mul_nonneg hhalf (add_nonneg (hentry _) (hentry _))

theorem thresholdOf_nonneg {config : AdaptiveConfig ℝ} {state : AdaptiveState}
    (hgain : ¬config.thresholdGain state < lit 0) (coefficients : List ℝ) :
    0 ≤ thresholdOf coefficients state config := by
  have hgain : 0 ≤ config.thresholdGain state := by
    rw [lit_real, Rat.cast_zero] at hgain
    exact not_lt.mp hgain
  exact mul_nonneg (mul_nonneg hgain (noiseSigma_nonneg coefficients maxWindow)) (Real.sqrt_nonneg _)

/-! ## What is left of the coefficients -/

theorem softThresholdOne_real (threshold coefficient : ℝ) :
    softThresholdOne threshold coefficient = shrink threshold coefficient := by
  have hmagnitude : fabs (toDouble coefficient : ℝ) = |coefficient| := rfl
  rw [softThresholdOne, shrink]
  simp only [hmagnitude]
  by_cases hle : |coefficient| ≤ threshold
  · rw [if_pos hle, if_pos hle, zeroFloat_real]
  · rw [if_neg hle, if_neg hle]
    have hleft : |(|coefficient| - threshold)| = |coefficient| - threshold :=
      abs_of_pos (sub_pos.mpr (not_le.mp hle))
    change (if coefficient < 0 then -|(|coefficient| - threshold)| else |(|coefficient| - threshold)|) = _
    rw [hleft]

theorem signal_softThreshold {coefficients : List ℝ} {firstDetail : ℕ} {threshold : ℝ}
    (hfirst : firstDetail ≤ coefficients.length) (hthreshold : 0 ≤ threshold) (i : ℕ) :
    signal (softThreshold coefficients firstDetail threshold) i =
      if i < firstDetail then signal coefficients i else shrink threshold (signal coefficients i) := by
  have hargs : ¬(firstDetail > coefficients.length ∨ threshold < lit 0) := by
    rw [lit_real, Rat.cast_zero, not_or]
    exact ⟨by omega, hthreshold.not_gt⟩
  have htake : (coefficients.take firstDetail).length = firstDetail := by
    rw [List.length_take]
    omega
  rw [softThreshold, if_neg hargs]
  simp only [signal, List.getD_eq_getElem?_getD]
  split
  · rename_i hi
    rw [List.getElem?_append_left (by omega), List.getElem?_take_of_lt hi]
  · rename_i hi
    rw [List.getElem?_append_right (by omega), List.getElem?_map, List.getElem?_drop, htake,
      Nat.add_sub_cancel' (by omega)]
    rcases coefficients[i]? with _ | c
    · have hzero : |(0 : ℝ)| ≤ threshold := by rwa [abs_zero]
      exact (shrink_of_le hzero).symm
    · exact softThresholdOne_real threshold c

/-! ## The largest magnitude -/

theorem foldl_magnitude (coefficients : List ℝ) (maximum : ℝ) :
    let result := coefficients.foldl (fun maximum coefficient =>
      if fabs (toDouble coefficient) > maximum then fabs (toDouble coefficient) else maximum) maximum
    maximum ≤ result ∧ (∀ c ∈ coefficients, |c| ≤ result) ∧
      (result = maximum ∨ ∃ c ∈ coefficients, |c| = result) := by
  induction coefficients generalizing maximum with
  | nil => simp
  | cons c coefficients ih =>
    have hmagnitude : fabs (toDouble c : ℝ) = |c| := rfl
    simp only [List.foldl_cons, hmagnitude, List.forall_mem_cons, List.exists_mem_cons_iff] at ih ⊢
    by_cases hlt : |c| > maximum
    · rw [if_pos hlt]
      obtain ⟨hle, hall, htop⟩ := ih |c|
      refine ⟨hlt.le.trans hle, ⟨hle, hall⟩, .inr ?_⟩
      exact htop.imp_left Eq.symm
    · rw [if_neg hlt]
      obtain ⟨hle, hall, htop⟩ := ih maximum
      exact ⟨hle, ⟨(not_lt.mp hlt).trans hle, hall⟩, htop.imp_right .inr⟩

theorem le_maximumMagnitude {coefficients : List ℝ} {c : ℝ} (h : c ∈ coefficients) :
    |c| ≤ maximumMagnitude coefficients := (foldl_magnitude coefficients (lit 0)).2.1 c h

theorem exists_maximumMagnitude {coefficients : List ℝ} (h : 0 < maximumMagnitude coefficients) :
    ∃ c ∈ coefficients, |c| = maximumMagnitude coefficients := by
  refine (foldl_magnitude coefficients (lit 0)).2.2.resolve_left fun hzero => ?_
  have hmaximum : maximumMagnitude coefficients = lit 0 := hzero
  rw [lit_real, Rat.cast_zero] at hmaximum
  exact h.ne' hmaximum

/-! ## Quantisation -/

theorem stepOf_pos {n : ℤ} (hn : 0 < n) (coefficients : List ℝ) : 0 < (stepOf n coefficients : ℝ) := by
  rw [stepOf]
  split
  · rename_i hpos
    rw [lit_real, Rat.cast_zero] at hpos
    refine div_pos hpos ?_
    rw [lit_real, Rat.cast_intCast]
    exact Int.cast_pos.mpr hn
  · rw [lit_real, Rat.cast_one]
    exact one_pos

/-- No quotient lies outside the signed width. -/
theorem abs_nearest_stepOf_le {n : ℤ} (hn : 0 < n) {coefficients : List ℝ} {c : ℝ}
    (hc : c ∈ coefficients) : |nearest (c / stepOf n coefficients)| ≤ n := by
  have hle := le_maximumMagnitude hc
  rw [stepOf, lit_real, lit_real, lit_real, Rat.cast_zero, Rat.cast_one, Rat.cast_intCast]
  split
  · rename_i hpos
    exact abs_nearest_div_le hn hpos hle
  · rename_i hzero
    have hmagnitude : |c| ≤ 0 := hle.trans (not_lt.mp hzero)
    refine abs_nearest_le ?_
    rw [div_one]
    exact hmagnitude.trans (Int.cast_nonneg hn.le)

theorem quantize_eq {n : ℤ} {scale c : ℝ} (h : |nearest (c / scale)| ≤ n) :
    quantize n scale c = nearest (c / scale) := by
  have hlround : lround (toDouble c / scale : ℝ) = nearest (c / scale) := realLround_eq _
  obtain ⟨hlow, hhigh⟩ := abs_le.mp h
  rw [quantize]
  simp only [hlround]
  rw [if_neg (not_lt.mpr hhigh), if_neg (not_lt.mpr hlow)]

def Analysis.stored {D : Type} (a : Analysis D) (i : ℕ) : ℤ := a.quantized.getD i 0

/-- What the encoder stores for the coefficients `c`, of which those from `firstDetail` on are
details, when the signed width ends at `n`. -/
structure Quantises (firstDetail : ℕ) (n : ℤ) (c : List ℝ) (a : Analysis ℝ) : Prop where
  threshold_nonneg : 0 ≤ a.threshold
  scale_pos : 0 < a.scale
  length_eq : a.quantized.length = c.length
  /-- The clamp changes no value. -/
  unclamped : ∀ i < c.length,
    a.stored i = realLround (signal (softThreshold c firstDetail a.threshold) i / a.scale)
  approximation : ∀ i < firstDetail, |a.stored i * a.scale - signal c i| ≤ a.scale / 2
  detail : ∀ i < c.length, firstDetail ≤ i →
    |a.stored i * a.scale - signal c i| ≤ a.threshold + a.scale / 2
  shrunk : ∀ i < c.length, firstDetail ≤ i → |signal c i| ≤ a.threshold → a.stored i = 0
  sign : ∀ i < c.length, 0 ≤ (a.stored i : ℝ) * signal c i
  /-- Where something is left, a largest magnitude of it is stored at the end of the width. -/
  largest : (∃ i < c.length, signal (softThreshold c firstDetail a.threshold) i ≠ 0) →
    ∃ i < c.length, (∀ j < c.length,
        |signal (softThreshold c firstDetail a.threshold) j| ≤
          |signal (softThreshold c firstDetail a.threshold) i|) ∧
      (a.stored i = n ∨ a.stored i = -n)

theorem analysisOf_stored {n : ℤ} (hn : 0 < n) {firstDetail : ℕ} {threshold : ℝ} {c : List ℝ}
    {i : ℕ} (hi : i < c.length) :
    (analysisOf n firstDetail threshold c).stored i =
      nearest (signal (softThreshold c firstDetail threshold) i /
        (analysisOf n firstDetail threshold c).scale) := by
  set kept := softThreshold c firstDetail threshold with hkept
  have hi : i < kept.length := by rwa [hkept, length_softThreshold]
  have hquantize := quantize_eq (abs_nearest_stepOf_le hn (signal_mem hi))
  simp only [Analysis.stored, analysisOf, ← hkept]
  rw [List.getD_eq_getElem _ 0 (by rwa [List.length_map]), List.getElem_map, signal_eq hi, hquantize]

theorem analysisOf_quantises {n : ℤ} (hn : 0 < n) {firstDetail : ℕ} {threshold : ℝ} {c : List ℝ}
    (hthreshold : 0 ≤ threshold) (hfirst : firstDetail ≤ c.length) :
    Quantises firstDetail n c (analysisOf n firstDetail threshold c) := by
  set kept := softThreshold c firstDetail threshold with hkept
  set a := analysisOf n firstDetail threshold c with ha
  have hlength : kept.length = c.length := length_softThreshold c firstDetail threshold
  have hscale : 0 < a.scale := stepOf_pos hn kept
  have hstored (i : ℕ) (hi : i < c.length) : a.stored i = nearest (signal kept i / a.scale) :=
    analysisOf_stored hn hi
  -- approximations are quantised as they are, details after shrinking
  have happrox (i : ℕ) (hi : i < firstDetail) : a.stored i = nearest (signal c i / a.scale) := by
    rw [hstored i (by omega), hkept, signal_softThreshold hfirst hthreshold, if_pos hi]
  have hdetail (i : ℕ) (hi : i < c.length) (hi' : firstDetail ≤ i) :
      a.stored i = nearest (shrink threshold (signal c i) / a.scale) := by
    rw [hstored i hi, hkept, signal_softThreshold hfirst hthreshold, if_neg (by omega)]
  refine ⟨hthreshold, hscale, ?_, ?_, ?_, ?_, ?_, ?_, ?_⟩
  · rw [ha, analysisOf, List.length_map, ← hkept, hlength]
  · intro i hi
    rw [hstored i hi, realLround_eq]
    rfl
  · intro i hi
    rw [happrox i hi]
    exact nearest_mul_sub_le hscale _
  · intro i hi hi'
    rw [hdetail i hi hi']
    exact nearest_shrink_sub_le hthreshold hscale _
  · intro i hi hi' hle
    rw [hdetail i hi hi']
    exact nearest_shrink_of_le hle
  · intro i hi
    rcases Nat.lt_or_ge i firstDetail with hi' | hi'
    · rw [happrox i hi']
      exact nearest_mul_nonneg hscale _
    · rw [hdetail i hi hi']
      exact nearest_shrink_mul_nonneg hthreshold hscale _
  · rintro ⟨i, hi, hne⟩
    have hmem : signal kept i ∈ kept := signal_mem (by omega)
    have htop : 0 < maximumMagnitude kept :=
      (abs_pos.mpr hne).trans_le (le_maximumMagnitude hmem)
    have hstep : a.scale = maximumMagnitude kept / n := by
      rw [ha, analysisOf, stepOf, ← hkept, lit_real, lit_real, Rat.cast_zero, if_pos htop,
        Rat.cast_intCast]
    obtain ⟨top, hmem, heq⟩ := exists_maximumMagnitude htop
    obtain ⟨k, hk, rfl⟩ := List.mem_iff_getElem.mp hmem
    rw [signal_eq hk] at heq
    refine ⟨k, by omega, fun j hj => ?_, ?_⟩
    · change |signal kept j| ≤ |signal kept k|
      rw [heq]
      exact le_maximumMagnitude (signal_mem (by omega))
    · rw [hstored k (by omega), hstep]
      exact abs_nearest_div_eq hn htop heq

theorem quantises_of_forward {samples c : List ℝ} (state : AdaptiveState)
    {config : AdaptiveConfig ℝ} (hvalid : configValidate config = .ok ())
    (hlength : samples.length = config.windowSize)
    (hforward : db4Forward samples config.windowSize config.waveletLevels.toNat
      (List.replicate maxWindow zeroFloat) = .ok c) :
    c.length = config.windowSize ∧
      Quantises (config.windowSize >>> config.waveletLevels.toNat)
        (2 ^ ((config.quantBits state).toNat - 1) - 1) c
        (analysisOf (2 ^ ((config.quantBits state).toNat - 1) - 1)
          (config.windowSize >>> config.waveletLevels.toNat) (thresholdOf c state config) c) := by
  obtain ⟨hgain, h2, -, -⟩ := policy_of_validate hvalid state
  have hscratch := le_length_scratch (F := ℝ) (configAccepted_of_validate hvalid).window_le
  have hgeometry := geometry_of_db4Forward hscratch hforward
  obtain ⟨c', hforward', hc, -⟩ := db4Forward_analyze samples _ hgeometry hlength.ge hscratch
  rw [hforward] at hforward'
  cases hforward'
  refine ⟨hc.trans hlength, ?_⟩
  apply analysisOf_quantises
  · have hbits : 2 ≤ (config.quantBits state).toNat := UInt32.le_iff_toNat_le.mp h2
    have hpow : (2 : ℤ) ^ 1 ≤ 2 ^ ((config.quantBits state).toNat - 1) :=
      pow_le_pow_right₀ (by decide) (by omega)
    omega
  · exact thresholdOf_nonneg hgain c
  · rw [hc, hlength, Nat.shiftRight_eq_div_pow]
    exact Nat.div_le_self _ _

/-- Whatever the window was: the encoder quantises the coefficients of its forward transform. -/
theorem codecAnalyze_quantises {samples c : List ℝ} (state : AdaptiveState)
    {config : AdaptiveConfig ℝ} (hvalid : configValidate config = .ok ())
    (hlength : samples.length = config.windowSize)
    (hforward : db4Forward samples config.windowSize config.waveletLevels.toNat
      (List.replicate maxWindow zeroFloat) = .ok c) :
    ∃ a, codecAnalyze samples state config = .ok a ∧
      Quantises (config.windowSize >>> config.waveletLevels.toNat)
        (2 ^ ((config.quantBits state).toNat - 1) - 1) c a := by
  obtain ⟨-, h2, h15, -⟩ := policy_of_validate hvalid state
  have hwindow := (configAccepted_of_validate hvalid).window_le
  obtain ⟨hc, hquantises⟩ := quantises_of_forward state hvalid hlength hforward
  exact ⟨_, codecAnalyze_of_forward h2 h15 hlength hwindow hforward hc, hquantises⟩

end

theorem codecAnalyze_quantises_eightSamples :
    letI : MathFunctions := ⟨Real.log, Real.exp⟩
    letI : FloatPatterns := binary32
    let samples : List ℝ := [1, 2, -1, 0, 0, 5, 3, 2]
    ∃ c a, db4Forward samples 8 1 (List.replicate maxWindow zeroFloat) = .ok c ∧
      codecAnalyze samples .normal smallConfig.toReal = .ok a ∧ Quantises 4 (2 ^ 11 - 1) c a := by
  let _ : MathFunctions := ⟨Real.log, Real.exp⟩
  let _ : FloatPatterns := binary32
  intro samples
  have hvalid : configValidate smallConfig = .ok () := by decide +kernel
  rw [← configValidate_toReal] at hvalid
  have hgeometry : Geometry 8 1 := (validateTransform_eq_ok_iff (Nat.le_refl 8)).mp rfl
  have hscratch := le_length_scratch (F := ℝ) hgeometry.count_le
  obtain ⟨c, hforward, -, -⟩ := db4Forward_analyze samples _ hgeometry (Nat.le_refl 8) hscratch
  obtain ⟨a, ha, hquantises⟩ := codecAnalyze_quantises .normal hvalid (Eq.refl 8) hforward
  exact ⟨c, a, hforward, ha, hquantises⟩

end AdaptiveLowpan
