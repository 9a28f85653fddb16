import AdaptiveLowpan.CodecQuantisation

/-! # The codec does not depend on the unit of the samples

In exact arithmetic, samples in another unit are stored as the same integers at the same
places. Only the step and the threshold of the header are in that unit too. -/

namespace AdaptiveLowpan
open CheckedMemory CDouble CFloat Quantiser ByteWords FilterBank

noncomputable def rescaled (c : ℝ) (xs : List ℝ) : List ℝ := xs.map (c * ·)

@[simp] theorem length_rescaled (c : ℝ) (xs : List ℝ) : (rescaled c xs).length = xs.length :=
  List.length_map _

theorem signal_rescaled (c : ℝ) (xs : List ℝ) :
    signal (rescaled c xs) = fun j => c * signal xs j := by
  funext j
  simp only [signal, rescaled, List.getD_eq_getElem?_getD, List.getElem?_map]
  cases xs[j]? with
  | none => simp
  | some x => simp

theorem eq_rescaled_of_signal {c : ℝ} {xs ys : List ℝ} (hlength : ys.length = xs.length)
    (h : signal ys = fun j => c * signal xs j) : ys = rescaled c xs := by
  refine List.ext_getElem (by simpa using hlength) fun j hy hx => ?_
  rw [signal_eq hy, signal_eq hx, h, signal_rescaled]

section
variable [MathFunctions] [FloatPatterns] {c : ℝ}

/-! ## The stages -/

theorem db4Forward_rescaled {samples coefficients scratch : List ℝ} {count levels : ℕ}
    (hv : count ≤ samples.length) (hs : count ≤ scratch.length)
    (h : db4Forward samples count levels scratch = .ok coefficients) (c : ℝ) :
    db4Forward (rescaled c samples) count levels scratch = .ok (rescaled c coefficients) := by
  have hgeometry := geometry_of_db4Forward hs h
  obtain ⟨plain, hplain, hlength, hsignal⟩ := db4Forward_analyze samples scratch hgeometry hv hs
  obtain ⟨other, hother, hlength', hsignal'⟩ :=
    db4Forward_analyze (rescaled c samples) scratch hgeometry (by simpa using hv) hs
  obtain rfl : coefficients = plain := Except.ok.inj (h.symm.trans hplain)
  rw [signal_rescaled, analyze_smul, ← hsignal] at hsignal'
  rw [hother, eq_rescaled_of_signal (by simp [hlength', hlength]) hsignal']

theorem sortedDetails_rescaled (hc : 0 < c) (xs : List ℝ) :
    ((rescaled c xs).map fabsf).insertionSort (fun a b => (toDouble a : ℝ) ≤ toDouble b) =
      rescaled c ((xs.map fabsf).insertionSort fun a b => (toDouble a : ℝ) ≤ toDouble b) := by
  have hmagnitudes : (rescaled c xs).map fabsf = (xs.map fabsf).map (c * ·) := by
    rw [rescaled, List.map_map, List.map_map]
    refine List.map_congr_left fun x _ => ?_
    change |c * x| = c * |x|
    rw [abs_mul, abs_of_pos hc]
  rw [hmagnitudes, rescaled]
  refine (List.map_insertionSort _ _ _ _ ?_).symm
  intro a _ b _
  exact (mul_le_mul_iff_right₀ hc).symm

theorem noiseSigma_rescaled (hc : 0 < c) (coefficients : List ℝ) (scratchCount : ℕ) :
    noiseSigma (rescaled c coefficients) scratchCount =
      c * (noiseSigma coefficients scratchCount : ℝ) := by
  have hdetails : ((rescaled c coefficients).drop (coefficients.length / 2)).take
      (coefficients.length / 2) =
        rescaled c ((coefficients.drop (coefficients.length / 2)).take
          (coefficients.length / 2)) := by
    rw [rescaled, ← List.map_drop, ← List.map_take, rescaled]
  rw [noiseSigma, noiseSigma]
  simp only [length_rescaled, hdetails, sortedDetails_rescaled hc]
  generalize ((((coefficients.drop (coefficients.length / 2)).take
    (coefficients.length / 2)).map fabsf).insertionSort
      fun a b => (toDouble a : ℝ) ≤ toDouble b) = sorted
  have hentry (i : ℕ) : (rescaled c sorted).getD i (zeroFloat : ℝ) =
      c * sorted.getD i (zeroFloat : ℝ) := by
    rw [zeroFloat_real]
    exact congrFun (signal_rescaled c sorted) i
  simp only [hentry]
  split
  · rw [lit_real, Rat.cast_zero, mul_zero]
  split
  · exact mul_div_assoc _ _ _
  · change lit 0.5 * (c * _ + c * _) / _ = c * (lit 0.5 * (_ + _) / _)
    ring

theorem thresholdOf_rescaled (hc : 0 < c) (coefficients : List ℝ) (state : AdaptiveState)
    (config : AdaptiveConfig ℝ) :
    thresholdOf (rescaled c coefficients) state config =
      c * thresholdOf coefficients state config := by
  rw [thresholdOf, thresholdOf, noiseSigma_rescaled hc, length_rescaled]
  ring

theorem softThreshold_rescaled (hc : 0 < c) {coefficients : List ℝ} {firstDetail : ℕ}
    {threshold : ℝ} (hfirst : firstDetail ≤ coefficients.length) (hthreshold : 0 ≤ threshold) :
    softThreshold (rescaled c coefficients) firstDetail (c * threshold) =
      rescaled c (softThreshold coefficients firstDetail threshold) := by
  refine eq_rescaled_of_signal (by rw [length_softThreshold, length_softThreshold, length_rescaled])
    ?_
  funext i
  rw [signal_softThreshold (by simpa using hfirst) (mul_nonneg hc.le hthreshold), signal_rescaled,
    signal_softThreshold hfirst hthreshold]
  split
  · rfl
  · exact shrink_mul hc threshold _

theorem maximumMagnitude_rescaled (hc : 0 < c) (coefficients : List ℝ) :
    maximumMagnitude (rescaled c coefficients) = c * (maximumMagnitude coefficients : ℝ) := by
  have hzero : (lit 0 : ℝ) = c * lit 0 := by rw [lit_real, Rat.cast_zero, mul_zero]
  rw [maximumMagnitude, rescaled, List.foldl_map, hzero, maximumMagnitude]
  refine List.foldl_hom (c * ·) ?_
  intro maximum coefficient
  have hmagnitude :
      fabs (toDouble (c * coefficient) : ℝ) = c * fabs (toDouble coefficient : ℝ) := by
    change |c * coefficient| = c * |coefficient|
    rw [abs_mul, abs_of_pos hc]
  have hlarger : c * fabs (toDouble coefficient : ℝ) > c * maximum ↔
      fabs (toDouble coefficient : ℝ) > maximum := mul_lt_mul_iff_right₀ hc
  simp only [hmagnitude, hlarger]
  split
  · rfl
  · rfl

/-! ## What is stored -/

/-- The step of coefficients in another unit, and the integers that are stored for them. -/
theorem stepOf_rescaled (hc : 0 < c) (n : ℤ) (kept : List ℝ) :
    stepOf n (rescaled c kept) =
      if 0 < (maximumMagnitude kept : ℝ) then c * stepOf n kept else stepOf n kept := by
  have hpos : (0 : ℝ) < c * maximumMagnitude kept ↔ (0 : ℝ) < maximumMagnitude kept :=
    mul_pos_iff_of_pos_left hc
  rw [stepOf, stepOf, maximumMagnitude_rescaled hc, lit_real, Rat.cast_zero]
  simp only [gt_iff_lt, hpos]
  split
  · exact mul_div_assoc _ _ _
  · rfl

theorem quantize_rescaled (hc : 0 < c) (n : ℤ) {kept : List ℝ} {x : ℝ} (hx : x ∈ kept) :
    quantize n (stepOf n (rescaled c kept) : ℝ) (c * x) = quantize n (stepOf n kept : ℝ) x := by
  rw [stepOf_rescaled hc]
  split
  · have hquotient : toDouble (c * x) / (c * stepOf n kept) = toDouble x / (stepOf n kept : ℝ) :=
      mul_div_mul_left x _ hc.ne'
    rw [quantize, quantize, hquotient]
  · rename_i hnone
    have hzero : x = 0 :=
      abs_nonpos_iff.mp ((le_maximumMagnitude hx).trans (not_lt.mp hnone))
    rw [hzero, mul_zero]

theorem analysisOf_rescaled (hc : 0 < c) (n : ℤ) {coefficients : List ℝ} {firstDetail : ℕ}
    {threshold : ℝ} (hfirst : firstDetail ≤ coefficients.length) (hthreshold : 0 ≤ threshold) :
    analysisOf n firstDetail (c * threshold) (rescaled c coefficients) =
      { analysisOf n firstDetail threshold coefficients with
        threshold := c * threshold
        scale := stepOf n (rescaled c (softThreshold coefficients firstDetail threshold)) } := by
  rw [analysisOf, analysisOf, softThreshold_rescaled hc hfirst hthreshold]
  congr 1
  rw [rescaled, List.map_map]
  exact List.map_congr_left fun x hx => quantize_rescaled hc n hx

/-- Something is stored exactly where something is left of the coefficients. -/
theorem nonzeroCount_eq_zero_iff {n : ℤ} (hn : 0 < n) (kept : List ℝ) :
    nonzeroCount (kept.map (quantize n (stepOf n kept : ℝ))) = 0 ↔
      ¬(0 : ℝ) < maximumMagnitude kept := by
  rw [nonzeroCount, List.countP_eq_zero, List.forall_mem_map]
  simp only [decide_eq_true_eq, not_not]
  constructor
  · intro hnone htop
    obtain ⟨x, hx, hlargest⟩ := exists_maximumMagnitude htop
    have hstep : (stepOf n kept : ℝ) = maximumMagnitude kept / n := by
      rw [stepOf, lit_real, lit_real, Rat.cast_zero, if_pos htop, Rat.cast_intCast]
    have hstored := hnone x hx
    rw [quantize_eq (abs_nearest_stepOf_le hn hx), hstep] at hstored
    rcases abs_nearest_div_eq hn htop hlargest with hend | hend
    · omega
    · omega
  · intro hnone x hx
    have hzero : x = 0 :=
      abs_nonpos_iff.mp ((le_maximumMagnitude hx).trans (not_lt.mp hnone))
    rw [quantize_eq (abs_nearest_stepOf_le hn hx), hzero, zero_div]
    simp [nearest]

theorem codecEncode_of_analyze {samples : List ℝ} {windowId : UInt32} {state : AdaptiveState}
    {config : AdaptiveConfig ℝ} {capacity : ℕ} {a : Analysis ℝ}
    (ha : codecAnalyze samples state config = .ok a) (hcount : nonzeroCount a.quantized ≤ uint16Max)
    (hroom : codecHeaderBytes + nonzeroCount a.quantized * 4 ≤ capacity) :
    codecEncode samples windowId state config capacity =
      .ok (codecHeader windowId state config samples.length (nonzeroCount a.quantized)
          (ofDouble a.scale : ℝ) (ofDouble a.threshold) ++
        writeU32 (crc32Update 0 (pairStream 0 a.quantized)) ++ pairStream 0 a.quantized,
      ⟨windowId, state, samples.length, config.waveletLevels, config.quantBits state,
        nonzeroCount a.quantized, a.threshold, a.scale⟩) := by
  rw [codecEncode, ha, ok_bind]
  simp only
  rw [if_neg (by omega)]
  rfl

/-- The analysis of a window whose samples are in another unit: the integers are the same. -/
theorem codecAnalyze_rescaled (hc : 0 < c) {config : AdaptiveConfig ℝ}
    (hvalid : configValidate config = .ok ()) {samples : List ℝ} {state : AdaptiveState}
    {a : Analysis ℝ} (ha : codecAnalyze samples state config = .ok a) :
    codecAnalyze (rescaled c samples) state config = .ok
      { a with
        threshold := c * a.threshold
        scale := if nonzeroCount a.quantized = 0 then 1 else c * a.scale } := by
  obtain ⟨hgain, h2, h15, -⟩ := policy_of_validate hvalid state
  have hwindow := (configAccepted_of_validate hvalid).window_le
  have hscratch := le_length_scratch (F := ℝ) hwindow
  obtain ⟨hlength, hgeometry, -, -⟩ := codecAnalyze_valid h2 h15 ha
  obtain ⟨coefficients, hforward, hcoefficients, -⟩ :=
    db4Forward_analyze samples _ hgeometry hlength.ge hscratch
  have hcount : coefficients.length = config.windowSize := hcoefficients.trans hlength
  have hfirst : config.windowSize >>> config.waveletLevels.toNat ≤ coefficients.length := by
    rw [hcount, Nat.shiftRight_eq_div_pow]
    exact Nat.div_le_self _ _
  have hend : (0 : ℤ) < 2 ^ ((config.quantBits state).toNat - 1) - 1 := by
    have hbits : 2 ≤ (config.quantBits state).toNat := UInt32.le_iff_toNat_le.mp h2
    have hpow : (2 : ℤ) ^ 1 ≤ 2 ^ ((config.quantBits state).toNat - 1) :=
      pow_le_pow_right₀ (by decide) (by omega)
    omega
  have hthreshold := thresholdOf_nonneg hgain coefficients
  have hplain := codecAnalyze_of_forward h2 h15 hlength hwindow hforward hcount
  have hother := codecAnalyze_of_forward h2 h15 ((length_rescaled c samples).trans hlength) hwindow
    (db4Forward_rescaled hlength.ge hscratch hforward c) ((length_rescaled c _).trans hcount)
  obtain rfl := Except.ok.inj (ha.symm.trans hplain)
  rw [hother, thresholdOf_rescaled hc, analysisOf_rescaled hc _ hfirst hthreshold]
  simp only [analysisOf, nonzeroCount_eq_zero_iff hend, stepOf_rescaled hc]
  split
  · rfl
  · rename_i hnone
    rw [stepOf, if_neg (by rwa [lit_real, Rat.cast_zero]), lit_real, Rat.cast_one]

/-- A window whose samples are in another unit is encoded to the same bytes but for the step and
the threshold in the header, which are in that unit as well. -/
theorem codecEncode_rescaled (hc : 0 < c) {config : AdaptiveConfig ℝ}
    (hvalid : configValidate config = .ok ()) {samples : List ℝ} {windowId : UInt32}
    {state : AdaptiveState} {capacity : ℕ} {output : Bytes} {metadata : CodecMetadata ℝ}
    (h : codecEncode samples windowId state config capacity = .ok (output, metadata)) :
    let metadata' := { metadata with
      threshold := c * metadata.threshold
      coefficientScale := if metadata.nonzeroCoefficients = 0 then 1
        else c * metadata.coefficientScale }
    codecEncode (rescaled c samples) windowId state config capacity =
      .ok (output.take 16 ++ writeU32 (toBits (ofDouble metadata'.coefficientScale : ℝ)) ++
        writeU32 (toBits (ofDouble metadata'.threshold : ℝ)) ++ output.drop 24, metadata') := by
  obtain ⟨a, ha, houtput, rfl, hroom⟩ := codecEncode_eq_ok h
  obtain ⟨-, h2, h15, -⟩ := policy_of_validate hvalid state
  obtain ⟨hlength, hvalues⟩ := codecAnalyze_valid h2 h15 ha
  have hwindow := (configAccepted_of_validate hvalid).window_le
  have hcount : nonzeroCount a.quantized ≤ uint16Max := by
    have hle := nonzeroCount_le a.quantized
    rw [hvalues.length_quantized] at hle
    exact hle.trans (hwindow.trans (by decide))
  have hroom : codecHeaderBytes + nonzeroCount a.quantized * 4 ≤ capacity := by
    rw [houtput] at hroom
    simp only [List.length_append, length_codecHeader, length_writeU32, length_pairStream] at hroom
    simp only [codecHeaderBytes]
    omega
  intro metadata'
  rw [codecEncode_of_analyze (codecAnalyze_rescaled hc hvalid ha) hcount hroom, houtput,
    length_rescaled]
  rfl

end

theorem codecEncode_rescaled_eightSamples :
    letI : MathFunctions := ⟨Real.log, Real.exp⟩
    letI : FloatPatterns := binary32
    let samples : List ℝ := [1, 2, -1, 0, 0, 5, 3, 2]
    ∃ output metadata output' metadata',
      codecEncode samples 7 .normal smallConfig.toReal 60 = .ok (output, metadata) ∧
      codecEncode (rescaled 2 samples) 7 .normal smallConfig.toReal 60 = .ok (output', metadata') ∧
      output'.drop 24 = output.drop 24 ∧ metadata'.threshold = 2 * metadata.threshold := by
  let _ : MathFunctions := ⟨Real.log, Real.exp⟩
  let _ : FloatPatterns := binary32
  intro samples
  have hvalid : configValidate smallConfig = .ok () := by decide +kernel
  rw [← configValidate_toReal] at hvalid
  have hgeometry : Geometry 8 1 := (validateTransform_eq_ok_iff (Nat.le_refl 8)).mp rfl
  have hscratch := le_length_scratch (F := ℝ) hgeometry.count_le
  obtain ⟨coefficients, hforward, -, -⟩ :=
    db4Forward_analyze samples _ hgeometry (Nat.le_refl 8) hscratch
  obtain ⟨-, h2, h15, -⟩ := policy_of_validate hvalid .normal
  obtain ⟨a, ha, -⟩ := codecAnalyze_quantises .normal hvalid (Eq.refl 8) hforward
  obtain ⟨-, hvalues⟩ := codecAnalyze_valid h2 h15 ha
  -- eight values at most are stored
  have hcount : nonzeroCount a.quantized ≤ 8 :=
    (nonzeroCount_le a.quantized).trans_eq hvalues.length_quantized
  have hroom : codecHeaderBytes + nonzeroCount a.quantized * 4 ≤ 60 := by
    simp only [codecHeaderBytes]
    omega
  have hencode : codecEncode samples 7 .normal smallConfig.toReal 60 = _ :=
    codecEncode_of_analyze ha (hcount.trans (by decide)) hroom
  have hother := codecEncode_rescaled two_pos hvalid hencode
  exact ⟨_, _, _, _, hencode, hother, rfl, rfl⟩

end AdaptiveLowpan
