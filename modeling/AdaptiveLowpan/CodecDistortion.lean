import AdaptiveLowpan.CodecQuantisation

/-! # How far decoding ends from the window

Over the real numbers, with the scale stored as it is: the mean square distance between the
window and what the decoder makes of its representation is bounded by the threshold, the
scale and the tap error. -/

namespace AdaptiveLowpan
open ByteWords CheckedMemory CDouble CFloat FilterBank Finset Quantiser

/-- Six levels of synthesis over at most 256 places stretch a mean square by little. -/
theorem tapGain_le {count levels : ℕ} (h : Geometry count levels) :
    (1 + (count : ℝ) * tapError) ^ levels ≤ 1.001 ^ 2 := by
  have hcount : (count : ℝ) ≤ 256 := by exact_mod_cast h.count_le
  have hbase : 1 + (count : ℝ) * tapError ≤ 1.0001 := by
    rw [tapError_eq]
    linarith
  have hone : (1 : ℝ) ≤ 1.0001 := by norm_num
  have hnonneg : 0 ≤ 1 + (count : ℝ) * tapError :=
    add_nonneg zero_le_one (mul_nonneg (Nat.cast_nonneg _) tapError_nonneg)
  calc (1 + (count : ℝ) * tapError) ^ levels ≤ 1.0001 ^ levels := pow_le_pow_left₀ hnonneg hbase _
    _ ≤ 1.0001 ^ 6 := pow_le_pow_right₀ hone h.levels_le
    _ ≤ 1.001 ^ 2 := by norm_num

/-- Synthesis of coefficients that are each within `δ` of those of a window. -/
theorem sum_sq_synthesize_db4_le {count levels : ℕ} (h : Geometry count levels) {x c : ℕ → ℝ}
    {B δ : ℝ} (hB : 0 ≤ B) (hδ : 0 ≤ δ) (hx : ∀ j < count, |x j| ≤ B)
    (hc : ∀ j < count, |c j - db4.analyze levels count x j| ≤ δ) :
    ∑ j ∈ range count, (db4.synthesize levels (count >>> levels) c j - x j) ^ 2 ≤
      count * (1.001 * δ + 1 / 10 ^ 6 * B) ^ 2 := by
  have hsplit := h.split
  have hgain := tapGain_le h
  have herror := mul_le_mul_of_nonneg_right (levelError_tapError_le h.levels_le) hB
  have hfirst : 0 ≤ levelError tapError 2 levels * B :=
    mul_nonneg (levelError_nonneg tapError_nonneg zero_le_two levels) hB
  have hsecond : 0 ≤ 1.001 * δ := mul_nonneg (by norm_num) hδ
  have hsum := sum_sq_synthesize_sub_le (b := db4) (S := 2) (η := 1.001) tapError_nonneg zero_le_two
    db4_reconstructs db4_bounded levels (count >>> levels) (by norm_num) hδ hB
    (by rwa [← hsplit]) (by rwa [← hsplit]) (by rwa [← hsplit])
  rw [← hsplit] at hsum
  refine hsum.trans (mul_le_mul_of_nonneg_left ?_ (Nat.cast_nonneg count))
  exact pow_le_pow_left₀ (add_nonneg hfirst hsecond) (by linarith) 2

section
variable [MathFunctions] [FloatPatterns]

theorem coefficientOf_real (scale : ℝ) (q : ℤ) : coefficientOf scale q = q * scale := by
  rw [coefficientOf]
  split
  · rename_i hzero
    rw [zeroFloat_real, hzero, Int.cast_zero, zero_mul]
  · rfl

/-- What the inverse transform starts from, where the encoder stored something. -/
theorem signal_coefficients {a : Analysis ℝ} {i : ℕ} (stored : ℝ) (rest : List ℝ)
    (hi : i < a.quantized.length) :
    signal (a.quantized.map (coefficientOf stored) ++ rest) i = a.stored i * stored := by
  have hlength : i < (a.quantized.map (coefficientOf stored)).length := by rwa [List.length_map]
  rw [signal, List.getD_append _ _ _ _ hlength, List.getD_eq_getElem _ _ hlength, List.getElem_map,
    coefficientOf_real, Analysis.stored, List.getD_eq_getElem _ _ hi]

/-- Every coefficient is stored to within the threshold and half a step. -/
theorem Quantises.near {firstDetail : ℕ} {n : ℤ} {c : List ℝ} {a : Analysis ℝ}
    (h : Quantises firstDetail n c a) {i : ℕ} (hi : i < c.length) :
    |a.stored i * a.scale - signal c i| ≤ a.threshold + a.scale / 2 := by
  rcases Nat.lt_or_ge i firstDetail with hi' | hi'
  · exact (h.approximation i hi').trans (le_add_of_nonneg_left h.threshold_nonneg)
  · exact h.detail i hi hi'

omit [MathFunctions] [FloatPatterns] in
theorem AnalysisValid.abs_stored_le {config : AdaptiveConfig ℝ} {a : Analysis ℝ}
    (h : AnalysisValid config a) {i : ℕ} (hi : i < config.windowSize) :
    |(a.stored i : ℝ)| ≤ 32768 := by
  have hi' : i < a.quantized.length := by rwa [h.length_quantized]
  rw [Analysis.stored, List.getD_eq_getElem _ _ hi']
  obtain ⟨hlow, hhigh⟩ := h.quantized_bounds _ (List.getElem_mem hi')
  rw [abs_le]
  constructor
  · exact_mod_cast hlow
  · exact_mod_cast hhigh.trans (by decide)

/-- Another scale in the place of the step moves a coefficient by its multiple. -/
theorem Quantises.near_stored {config : AdaptiveConfig ℝ} {firstDetail : ℕ} {n : ℤ} {c : List ℝ}
    {a : Analysis ℝ} (h : Quantises firstDetail n c a) (hanalysis : AnalysisValid config a)
    (hlength : c.length = config.windowSize) (stored : ℝ) {i : ℕ} (hi : i < config.windowSize) :
    |a.stored i * stored - signal c i| ≤
      a.threshold + a.scale / 2 + 32768 * |stored - a.scale| := by
  calc |a.stored i * stored - signal c i|
      = |a.stored i * a.scale - signal c i + a.stored i * (stored - a.scale)| := by ring_nf
    _ ≤ |a.stored i * a.scale - signal c i| + |(a.stored i : ℝ)| * |stored - a.scale| := by
      rw [← abs_mul]
      exact abs_add_le _ _
    _ ≤ a.threshold + a.scale / 2 + 32768 * |stored - a.scale| :=
      add_le_add (h.near (by rwa [hlength]))
        (mul_le_mul_of_nonneg_right (hanalysis.abs_stored_le hi) (abs_nonneg _))

/-- The forward transform of an accepted window, and what is stored for it. -/
theorem codecAnalyze_eq_ok {config : AdaptiveConfig ℝ} (hvalid : configValidate config = .ok ())
    {samples : List ℝ} {state : AdaptiveState} {a : Analysis ℝ}
    (ha : codecAnalyze samples state config = .ok a) :
    ∃ c, signal c =
        db4.analyze config.waveletLevels.toNat config.windowSize (signal samples) ∧
      c.length = config.windowSize ∧ Quantises (config.windowSize >>> config.waveletLevels.toNat)
        (2 ^ ((config.quantBits state).toNat - 1) - 1) c a := by
  obtain ⟨-, h2, h15, -⟩ := policy_of_validate hvalid state
  obtain ⟨hlength, hanalysis⟩ := codecAnalyze_valid h2 h15 ha
  have hscratch := le_length_scratch (F := ℝ) hanalysis.geometry.count_le
  obtain ⟨c, hforward, hc, hanalyze⟩ :=
    db4Forward_analyze samples _ hanalysis.geometry hlength.ge hscratch
  obtain ⟨a', ha', hquantises⟩ := codecAnalyze_quantises state hvalid hlength hforward
  obtain rfl := Except.ok.inj (ha.symm.trans ha')
  exact ⟨c, hanalyze, hc.trans hlength, hquantises⟩

theorem codecAnalyze_pos {config : AdaptiveConfig ℝ} (hvalid : configValidate config = .ok ())
    {samples : List ℝ} {state : AdaptiveState} {a : Analysis ℝ}
    (ha : codecAnalyze samples state config = .ok a) : 0 ≤ a.threshold ∧ 0 < a.scale := by
  obtain ⟨c, -, -, hquantises⟩ := codecAnalyze_eq_ok hvalid ha
  exact ⟨hquantises.threshold_nonneg, hquantises.scale_pos⟩

/-- Decoding with the scale that was stored: the mean square distance to the window is bounded by
the distance of the coefficients. -/
theorem codecDecode_of_stored {samples : List ℝ} {windowId : UInt32} {state : AdaptiveState}
    {config : AdaptiveConfig ℝ} {a : Analysis ℝ} {B δ stored : ℝ} (out : DecodeTarget ℝ ℝ)
    (hvalid : configValidate config = .ok ()) (hx : ∀ x ∈ samples, |x| ≤ B)
    (ha : codecAnalyze samples state config = .ok a)
    (hbits : FloatPatterns.ofBits (FloatPatterns.toBits a.scale) = stored) (hpos : 0 < stored)
    (hδ : a.threshold + a.scale / 2 + 32768 * |stored - a.scale| ≤ δ)
    (hcapacity : config.windowSize ≤ out.samples.length) :
    ∃ out', codecDecode (codecHeader windowId state config samples.length
          (nonzeroCount a.quantized) a.scale a.threshold ++
        writeU32 (crc32Update 0 (pairStream 0 a.quantized)) ++ pairStream 0 a.quantized) out =
          (.ok (), out') ∧
      out'.sampleCount = config.windowSize ∧ out'.samples.length = out.samples.length ∧
      ∑ i ∈ range config.windowSize, (signal out'.samples i - signal samples i) ^ 2 ≤
        config.windowSize * (1.001 * δ + 1 / 10 ^ 6 * B) ^ 2 := by
  have hconfig := configAccepted_of_validate hvalid
  obtain ⟨hlength, hanalysis⟩ := codecAnalyze_valid (hconfig.quantBits_ge state)
    (hconfig.quantBits_le state) ha
  have hgeometry := hanalysis.geometry
  have hscratch := le_length_scratch (F := ℝ) hgeometry.count_le
  obtain ⟨c, hanalyze, hc, hquantises⟩ := codecAnalyze_eq_ok hvalid ha
  -- what the decoder starts its inverse transform from
  have haccepts : ¬stored ≤ (lit 0 : ℝ) := by
    rw [lit_real, Rat.cast_zero]
    exact hpos.not_ge
  have hunpack := codecUnpack_of_stored windowId hconfig ha hbits rfl haccepts hcapacity
  have hstarts : config.windowSize ≤
      (a.quantized.map (coefficientOf stored) ++ out.samples.drop config.windowSize).length := by
    rw [List.length_append, List.length_map, hanalysis.length_quantized]
    omega
  obtain ⟨samples', hinverse, hkept, hsynthesize⟩ :=
    db4Inverse_synthesize _ _ hgeometry hstarts hscratch
  have hbound : ∀ i < config.windowSize, |signal samples i| ≤ B :=
    fun i hi => hx _ (signal_mem (by omega))
  have hB : 0 ≤ B := (abs_nonneg _).trans (hbound 0 (by have := hgeometry.eight_le; omega))
  have hδ_nonneg : 0 ≤ δ := by
    have hthreshold := hquantises.threshold_nonneg
    have hscale := hquantises.scale_pos
    exact le_trans (by positivity) hδ
  refine ⟨_, codecDecode_of_unpack hunpack hinverse, rfl, ?_, ?_⟩
  · rw [hkept, List.length_append, List.length_map, hanalysis.length_quantized, List.length_drop]
    omega
  · simp only [hsynthesize]
    refine sum_sq_synthesize_db4_le hgeometry hB hδ_nonneg hbound fun i hi => ?_
    rw [signal_coefficients _ _ (by rw [hanalysis.length_quantized]; exact hi), ← hanalyze]
    exact (hquantises.near_stored hanalysis hc stored hi).trans hδ

/-- Whatever the window: decoding ends within the threshold and half a step of it, in the mean
square and up to the digits of the taps. -/
theorem codecDecode_distortion {samples : List ℝ} {windowId : UInt32} {state : AdaptiveState}
    {config : AdaptiveConfig ℝ} {capacity : ℕ} {output : Bytes} {metadata : CodecMetadata ℝ} {B : ℝ}
    (out : DecodeTarget ℝ ℝ) (hvalid : configValidate config = .ok ())
    (hx : ∀ x ∈ samples, |x| ≤ B)
    (hencode : codecEncode samples windowId state config capacity = .ok (output, metadata))
    (hscale : FloatPatterns.ofBits (FloatPatterns.toBits metadata.coefficientScale) =
      metadata.coefficientScale)
    (hcapacity : config.windowSize ≤ out.samples.length) :
    ∃ out', codecDecode output out = (.ok (), out') ∧ out'.sampleCount = config.windowSize ∧
      ∑ i ∈ range config.windowSize, (signal out'.samples i - signal samples i) ^ 2 ≤
        config.windowSize * (1.001 * (metadata.threshold + metadata.coefficientScale / 2) +
          1 / 10 ^ 6 * B) ^ 2 := by
  obtain ⟨a, ha, rfl, rfl, -⟩ := codecEncode_eq_ok hencode
  obtain ⟨-, hpos⟩ := codecAnalyze_pos hvalid ha
  have hexact : a.threshold + a.scale / 2 + 32768 * |a.scale - a.scale| ≤
      a.threshold + a.scale / 2 := by
    rw [sub_self, abs_zero, mul_zero, add_zero]
  obtain ⟨out', hdecode, hcount, -, hsum⟩ :=
    codecDecode_of_stored out hvalid hx ha hscale hpos hexact hcapacity
  exact ⟨out', hdecode, hcount, hsum⟩

theorem stepOf_eq_div {n : ℤ} {cs : List ℝ} {top : ℝ} (htop : 0 < top) (hmem : ∃ c ∈ cs, |c| = top)
    (hle : ∀ c ∈ cs, |c| ≤ top) : (stepOf n cs : ℝ) = top / n := by
  obtain ⟨c, hc, hctop⟩ := hmem
  have hpos : 0 < maximumMagnitude cs := htop.trans_le (hctop ▸ le_maximumMagnitude hc)
  obtain ⟨d, hd, hmax⟩ := exists_maximumMagnitude hpos
  have hmaximum : maximumMagnitude cs = top :=
    le_antisymm (hmax ▸ hle d hd) (hctop ▸ le_maximumMagnitude hc)
  rw [stepOf, lit_real, lit_real, Rat.cast_zero, Rat.cast_intCast, if_pos hpos, hmaximum]

end

noncomputable def db4Gain : ℝ := ∑ k ∈ range 8, db4.low k

theorem db4Gain_pos : 0 < db4Gain := by
  have hsum : (0 : ℚ) < ∑ k ∈ range 8, db4Taps.low k := by decide +kernel
  have hcast := Rat.cast_pos (K := ℝ).mpr hsum
  rwa [Rat.cast_sum] at hcast

theorem sum_high_le : |∑ k ∈ range 8, db4.high k| ≤ db4Gain := by
  have hsum : |∑ k ∈ range 8, db4Taps.high k| ≤ ∑ k ∈ range 8, db4Taps.low k := by decide +kernel
  have hcast := Rat.cast_le (K := ℝ).mpr hsum
  rwa [Rat.cast_abs, Rat.cast_sum, Rat.cast_sum] at hcast

/-- The analysis of a constant window has the gain of the low-pass taps at its top. -/
theorem analysis_constant {x : ℕ → ℝ} {a : ℝ} (ha : 0 ≤ a) (hx : ∀ j < 8, x j = a) :
    db4.analysis 4 x 0 = db4Gain * a ∧ ∀ j < 8, |db4.analysis 4 x j| ≤ db4Gain * a := by
  have hgain : |db4Gain| = db4Gain := abs_of_pos db4Gain_pos
  have hlow : ∀ j < 4, db4.analysis 4 x j = db4Gain * a := by
    intro j hj
    rw [Bank.analysis, if_pos hj]
    exact response_const db4.low (by decide) hx j
  refine ⟨hlow 0 (by decide), fun j hj => ?_⟩
  rcases Nat.lt_or_ge j 4 with hj' | hj'
  · rw [hlow j hj', abs_mul, hgain, abs_of_nonneg ha]
  · rw [Bank.analysis, if_neg (by omega), if_pos hj, response_const db4.high (by decide) hx, abs_mul,
      abs_of_nonneg ha]
    exact mul_le_mul_of_nonneg_right sum_high_le ha

/-- The step of a constant window of eight samples, through one level. -/
theorem scale_constant [MathFunctions] [FloatPatterns] {config : AdaptiveConfig ℝ}
    (hvalid : configValidate config = .ok ()) (hwindow : config.windowSize = 8)
    (hlevels : config.waveletLevels.toNat = 1) {v : ℝ} (hv : 0 < v) {state : AdaptiveState}
    {a : Analysis ℝ} (ha : codecAnalyze (List.replicate 8 v) state config = .ok a) :
    a.scale = db4Gain * v / (2 ^ ((config.quantBits state).toNat - 1) - 1 : ℤ) := by
  obtain ⟨hgain, h2, h15, -⟩ := policy_of_validate hvalid state
  have hlength : (List.replicate 8 v).length = config.windowSize := by
    rw [List.length_replicate, hwindow]
  have hgeometry : Geometry 8 1 := (validateTransform_eq_ok_iff (Nat.le_refl 8)).mp rfl
  have hscratch := le_length_scratch (F := ℝ) hgeometry.count_le
  obtain ⟨c, hforward, hc, hanalyze⟩ :=
    db4Forward_analyze (List.replicate 8 v) _ hgeometry List.length_replicate.ge hscratch
  rw [List.length_replicate] at hc
  have hplain := codecAnalyze_of_forward h2 h15 hlength (by rw [hwindow]; decide)
    (by rw [hwindow, hlevels]; exact hforward) (hc.trans hwindow.symm)
  obtain rfl := Except.ok.inj (ha.symm.trans hplain)
  rw [hwindow, hlevels]
  set T := thresholdOf c state config
  have hT : 0 ≤ T := thresholdOf_nonneg hgain c
  -- the first approximation is the largest coefficient, and it is kept as it is
  have hconstant : ∀ j < 8, signal (List.replicate 8 v) j = v := by
    intro j hj
    rw [← signal_eq (by rw [List.length_replicate]; exact hj), List.getElem_replicate]
  obtain ⟨htop, hle⟩ := analysis_constant hv.le hconstant
  have hsignal : signal c = db4.analysis 4 (signal (List.replicate 8 v)) := hanalyze
  rw [← hsignal] at htop hle
  have hkept (j : ℕ) : signal (softThreshold c 4 T) j =
      if j < 4 then signal c j else shrink T (signal c j) :=
    signal_softThreshold (by omega) hT j
  have hkept_length : (softThreshold c 4 T).length = 8 := (length_softThreshold c 4 T).trans hc
  change (stepOf _ (softThreshold c 4 T) : ℝ) = _
  refine stepOf_eq_div (mul_pos db4Gain_pos hv) ?_ ?_
  · refine ⟨_, signal_mem (show 0 < (softThreshold c 4 T).length by omega), ?_⟩
    rw [hkept, if_pos (by decide), htop, abs_of_pos (mul_pos db4Gain_pos hv)]
  · intro y hy
    obtain ⟨j, hj, rfl⟩ := List.mem_iff_getElem.mp hy
    rw [signal_eq hj, hkept]
    split
    · exact hle j (by omega)
    · exact (abs_shrink_le hT).trans (hle j (by omega))

theorem codecDecode_distortion_constant :
    letI : MathFunctions := ⟨Real.log, Real.exp⟩
    letI : FloatPatterns := binary32
    let samples := List.replicate 8 (2047 / db4Gain)
    let out : DecodeTarget ℝ ℝ := ⟨List.replicate 8 0, 0, none⟩
    ∃ output metadata out',
      codecEncode samples 7 .normal smallConfig.toReal maxRepresentation = .ok (output, metadata) ∧
      codecDecode output out = (.ok (), out') ∧ out'.sampleCount = 8 ∧
      ∑ i ∈ range 8, (signal out'.samples i - signal samples i) ^ 2 ≤
        (8 : ℕ) * (1.001 * (metadata.threshold + metadata.coefficientScale / 2) +
          1 / 10 ^ 6 * (2047 / db4Gain)) ^ 2 := by
  let _ : MathFunctions := ⟨Real.log, Real.exp⟩
  let _ : FloatPatterns := binary32
  intro samples out
  have hvalid : configValidate smallConfig = .ok () := by decide +kernel
  rw [← configValidate_toReal] at hvalid
  obtain ⟨-, h2, h15, -⟩ := policy_of_validate hvalid .normal
  have hpos : (0 : ℝ) < 2047 / db4Gain := div_pos (by norm_num) db4Gain_pos
  have hlength : samples.length = 8 := List.length_replicate
  have hgeometry : Geometry 8 1 := (validateTransform_eq_ok_iff (Nat.le_refl 8)).mp rfl
  have hscratch := le_length_scratch (F := ℝ) hgeometry.count_le
  obtain ⟨c, hforward, -, -⟩ := db4Forward_analyze samples _ hgeometry hlength.ge hscratch
  obtain ⟨a, ha, -⟩ := codecAnalyze_quantises .normal hvalid hlength hforward
  -- the first approximation ends the signed width
  have hscale : a.scale = 1 := by
    rw [scale_constant hvalid rfl rfl hpos ha, mul_div_cancel₀ _ db4Gain_pos.ne']
    change (2047 : ℝ) / ((2 ^ 11 - 1 : ℤ) : ℝ) = 1
    norm_num
  obtain ⟨output, metadata, hencode, hstep⟩ : ∃ output metadata,
      codecEncode samples 7 .normal smallConfig.toReal maxRepresentation = .ok (output, metadata) ∧
        metadata.coefficientScale = 1 := by
    have hnonzero := nonzeroCount_le a.quantized
    have hquantized : a.quantized.length = 8 := (codecAnalyze_valid h2 h15 ha).2.length_quantized
    have hfits : ¬(nonzeroCount a.quantized > uint16Max ∨
        codecHeaderBytes + nonzeroCount a.quantized * 4 > maxRepresentation) := by
      simp only [uint16Max, codecHeaderBytes, maxRepresentation, maxWindow]
      omega
    rw [codecEncode, ha, ok_bind]
    exact ⟨_, _, if_neg hfits, hscale⟩
  have hone : ((Single.value ⟨0x3f800000⟩ : ℚ) : ℝ) = 1 := by
    have hvalue : Single.value ⟨0x3f800000⟩ = 1 := by decide +kernel
    rw [hvalue, Rat.cast_one]
  have hstored := binary32_stores 0x3f800000
  rw [hone] at hstored
  rw [← hstep] at hstored
  have hbound : ∀ x ∈ samples, |x| ≤ 2047 / db4Gain := by
    intro x hx
    rw [List.eq_of_mem_replicate hx, abs_of_pos hpos]
  obtain ⟨out', hdecode, hcount, hsum⟩ :=
    codecDecode_distortion out hvalid hbound hencode hstored List.length_replicate.ge
  exact ⟨output, metadata, out', hencode, hdecode, hcount, hsum⟩

end AdaptiveLowpan
