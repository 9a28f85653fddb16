import AdaptiveLowpan.CodecHeader
import AdaptiveLowpan.ConfigPolicy

/-! # Decoding what the encoder wrote

The decoder reads back every field of the header and every stored pair, and hands
the inverse transform the quantised coefficients times the stored scale. The
invariant of its loop splits the sample buffer at the index the encoder has
reached. -/

namespace AdaptiveLowpan
open ByteWords CheckedMemory CDouble CFloat

/-! ## Little-endian fields -/

/-- A byte shifted to its place in a word. -/
private theorem toNat_byte_shiftLeft (b : UInt8) {k : ℕ} (hk : k ≤ 24) :
    (b.toUInt32 <<< UInt32.ofNat k).toNat = 2 ^ k * b.toNat := by
  have hb := b.toNat_lt
  have hmod : k % 2 ^ 32 % 32 = k := by omega
  have hpow : 2 ^ k ≤ 2 ^ 24 := Nat.pow_le_pow_right (by decide) hk
  have hlt : b.toNat * 2 ^ k < 2 ^ 32 := by nlinarith
  rw [UInt32.toNat_shiftLeft, UInt8.toNat_toUInt32, UInt32.toNat_ofNat', hmod, Nat.shiftLeft_eq,
    Nat.mod_eq_of_lt hlt, Nat.mul_comm]

theorem toNat_join16 (b0 b1 : UInt8) :
    (b0.toUInt16 ||| (b1.toUInt16 <<< 8)).toNat = 2 ^ 8 * b1.toNat + b0.toNat := by
  have h0 : b0.toNat < 2 ^ 8 := b0.toNat_lt
  have h1 := b1.toNat_lt
  have hshift : (b1.toUInt16 <<< 8).toNat = 2 ^ 8 * b1.toNat := by
    rw [UInt16.toNat_shiftLeft, UInt8.toNat_toUInt16, Nat.shiftLeft_eq]
    simp
    omega
  rw [UInt16.toNat_or, hshift, UInt8.toNat_toUInt16, Nat.or_comm, Nat.two_pow_add_eq_or_of_lt h0]

theorem toNat_join32 (b0 b1 b2 b3 : UInt8) :
    (b0.toUInt32 ||| (b1.toUInt32 <<< 8) ||| (b2.toUInt32 <<< 16) ||| (b3.toUInt32 <<< 24)).toNat =
      2 ^ 24 * b3.toNat + (2 ^ 16 * b2.toNat + (2 ^ 8 * b1.toNat + b0.toNat)) := by
  have h0 := b0.toNat_lt
  have h1 := b1.toNat_lt
  have h2 := b2.toNat_lt
  have s1 := toNat_byte_shiftLeft b1 (show 8 ≤ 24 by decide)
  have s2 := toNat_byte_shiftLeft b2 (show 16 ≤ 24 by decide)
  have s3 := toNat_byte_shiftLeft b3 (show 24 ≤ 24 by decide)
  change (b1.toUInt32 <<< 8).toNat = _ at s1
  change (b2.toUInt32 <<< 16).toNat = _ at s2
  change (b3.toUInt32 <<< 24).toNat = _ at s3
  -- the four bytes do not overlap, so each `or` is a sum
  rw [UInt32.toNat_or, UInt32.toNat_or, UInt32.toNat_or, s1, s2, s3, UInt8.toNat_toUInt32,
    Nat.or_comm b0.toNat, ← Nat.two_pow_add_eq_or_of_lt (by omega),
    Nat.or_comm _ (2 ^ 16 * b2.toNat), ← Nat.two_pow_add_eq_or_of_lt (by omega),
    Nat.or_comm _ (2 ^ 24 * b3.toNat), ← Nat.two_pow_add_eq_or_of_lt (by omega)]

theorem writeU16_eq (value : UInt16) :
    writeU16 value = [UInt8.ofNat value.toNat, UInt8.ofNat (value.toNat / 2 ^ 8)] := by
  have hlow : (value &&& 0xff).toUInt8 = UInt8.ofNat value.toNat := by
    have hand : (value &&& 0xff).toNat = value.toNat % 256 := by
      rw [UInt16.toNat_and]
      exact Nat.and_two_pow_sub_one_eq_mod value.toNat 8
    apply UInt8.toNat_inj.mp
    rw [UInt16.toNat_toUInt8, hand, UInt8.toNat_ofNat']
    omega
  have hhigh : (value >>> 8).toUInt8 = UInt8.ofNat (value.toNat / 2 ^ 8) := by
    apply UInt8.toNat_inj.mp
    rw [UInt16.toNat_toUInt8, UInt16.toNat_shiftRight, Nat.shiftRight_eq_div_pow,
      UInt8.toNat_ofNat']
    rfl
  rw [writeU16, hlow, hhigh]

theorem writeU32_eq (value : UInt32) :
    writeU32 value = [UInt8.ofNat value.toNat, UInt8.ofNat (value.toNat / 2 ^ 8),
      UInt8.ofNat (value.toNat / 2 ^ 16), UInt8.ofNat (value.toNat / 2 ^ 24)] := by
  have hmask (x : UInt32) : (x &&& 0xff).toUInt8 = x.toUInt8 := by
    apply UInt8.toNat_inj.mp
    rw [UInt32.toNat_toUInt8, UInt32.toNat_toUInt8, UInt32.toNat_and]
    have hand : x.toNat &&& 255 = x.toNat % 256 := Nat.and_two_pow_sub_one_eq_mod x.toNat 8
    rw [show (0xff : UInt32).toNat = 255 from rfl, hand]
    omega
  have h0 : value.toUInt8 = UInt8.ofNat value.toNat := by
    apply UInt8.toNat_inj.mp
    rw [UInt32.toNat_toUInt8, UInt8.toNat_ofNat']
  rw [writeU32, hmask, hmask, hmask, h0, ← toUInt8_shiftRight value (show 8 < 32 by decide),
    ← toUInt8_shiftRight value (show 16 < 32 by decide),
    ← toUInt8_shiftRight value (show 24 < 32 by decide)]
  rfl

theorem u16At_writeU16 (value : UInt16) : u16At (writeU16 value) 0 = value := by
  have hv := value.toNat_lt
  apply UInt16.toNat_inj.mp
  rw [writeU16_eq, u16At, toNat_join16]
  simp only [byteAt, List.getD_cons_zero, List.getD_cons_succ, UInt8.toNat_ofNat']
  omega

theorem u32At_writeU32 (value : UInt32) : u32At (writeU32 value) 0 = value := by
  have hv := value.toNat_lt
  apply UInt32.toNat_inj.mp
  rw [writeU32_eq, u32At, toNat_join32]
  simp only [byteAt, List.getD_cons_zero, List.getD_cons_succ, UInt8.toNat_ofNat']
  omega

theorem readU16_of_drop {input rest : Bytes} {offset : ℕ} {value : UInt16}
    (h : input.drop offset = writeU16 value ++ rest) : readU16 input offset = .ok value := by
  have hv := value.toNat_lt
  rw [writeU16_eq] at h
  rw [readU16, readAt_of_drop h, ok_bind, readAt_of_drop (drop_succ_of_drop h), ok_bind]
  refine congrArg Except.ok ?_
  apply UInt16.toNat_inj.mp
  rw [toNat_join16, UInt8.toNat_ofNat', UInt8.toNat_ofNat']
  omega

theorem toInt16_ofInt16 {q : ℤ} (hlow : -32768 ≤ q) (hhigh : q ≤ 32767) :
    toInt16 (ofInt16 q) = q := by
  have hnat : (ofInt16 q).toNat = (q % 65536).toNat := by
    rw [ofInt16, UInt16.toNat_ofNat']
    omega
  unfold toInt16
  rw [hnat]
  split <;> omega

/-! ## The pair stream -/

@[simp] theorem length_writeU16 (value : UInt16) : (writeU16 value).length = 2 := rfl

@[simp] theorem length_writeU32 (value : UInt32) : (writeU32 value).length = 4 := rfl

theorem length_pairStream (i : ℕ) (quantized : List ℤ) :
    (pairStream i quantized).length = nonzeroCount quantized * 4 := by
  induction quantized generalizing i with
  | nil => rfl
  | cons q quantized ih =>
    by_cases hq : q = 0
    · simp [pairStream, nonzeroCount, hq, ih]
    · simp [pairStream, nonzeroCount, hq, ih]
      omega

variable {F D : Type} [CDouble D] [CFloat F D]

def coefficientOf (scale : F) (q : ℤ) : F := if q = 0 then zeroFloat else mulInt q scale

/-- The loop over the pairs fills the slots of the coefficients still to come. -/
theorem storeCoefficients_pairStream (input tail : Bytes) (scale : F) (count i : ℕ)
    (quantized : List ℤ) (previous : Option UInt16) (done rest : List F)
    (hq : ∀ q ∈ quantized, -32768 ≤ q ∧ q ≤ 32767)
    (hcount : done.length + quantized.length ≤ count) (hmax : count ≤ maxWindow)
    (hprevious : ∀ p ∈ previous, p.toNat < done.length)
    (hdrop : input.drop (codecHeaderBytes + i * 4) =
      pairStream done.length quantized ++ tail) :
    storeCoefficients input scale count (nonzeroCount quantized) i previous
        (done ++ List.replicate quantized.length zeroFloat ++ rest) =
      (.ok (), done ++ quantized.map (coefficientOf scale) ++ rest) := by
  induction quantized generalizing done i previous with
  | nil => simp [nonzeroCount, storeCoefficients]
  | cons q quantized ih =>
    have hq' : ∀ p ∈ quantized, -32768 ≤ p ∧ p ≤ 32767 :=
      fun p hp => hq p (List.mem_cons_of_mem q hp)
    simp only [List.length_cons] at hcount
    by_cases hzero : q = 0
    · have hcount0 : nonzeroCount (q :: quantized) = nonzeroCount quantized := by
        simp [nonzeroCount, hzero]
      have h := ih i previous (done ++ [zeroFloat]) hq'
        (by rw [List.length_append, List.length_singleton]; omega)
        (fun p hp => by
          have := hprevious p hp
          rw [List.length_append]
          omega)
        (by
          rw [hdrop, List.length_append, List.length_singleton]
          simp [pairStream, hzero])
      rw [hcount0]
      simpa [List.replicate_succ, coefficientOf, hzero] using h
    · have hcount1 : nonzeroCount (q :: quantized) = nonzeroCount quantized + 1 := by
        simp [nonzeroCount, hzero]
      have hlen : done.length < 65536 := by
        have hwindow : maxWindow = 256 := rfl
        omega
      have hindex : (UInt16.ofNat done.length).toNat = done.length := by
        rw [UInt16.toNat_ofNat']
        omega
      have hdrop1 : input.drop (codecHeaderBytes + i * 4) = writeU16 (UInt16.ofNat done.length) ++
          (writeU16 (ofInt16 q) ++ (pairStream (done.length + 1) quantized ++ tail)) := by
        rw [hdrop]
        simp [pairStream, hzero]
      have hdrop2 := drop_add_of_drop hdrop1
      have hdrop3 := drop_add_of_drop hdrop2
      have hfresh : ¬((UInt16.ofNat done.length).toNat ≥ count ∨
          ∃ p ∈ previous, UInt16.ofNat done.length ≤ p) := by
        rw [hindex, not_or]
        refine ⟨by omega, ?_⟩
        rintro ⟨p, hp, hle⟩
        have hlt := hprevious p hp
        have hle' : (UInt16.ofNat done.length).toNat ≤ p.toNat := UInt16.le_iff_toNat_le.mp hle
        omega
      have hwrite : (writeAt (done ++ List.replicate (quantized.length + 1) zeroFloat ++ rest)
          done.length (mulInt q scale) : Outcome (List F)) =
            .ok ((done ++ [mulInt q scale]) ++ List.replicate quantized.length zeroFloat ++ rest) := by
        rw [writeAt_of_lt _ (by simp)]
        simp [List.replicate_succ]
      have hbound := hq q List.mem_cons_self
      have h := ih (i + 1) (some (UInt16.ofNat done.length)) (done ++ [mulInt q scale]) hq'
        (by rw [List.length_append, List.length_singleton]; omega)
        (fun p hp => by
          cases hp
          rw [hindex, List.length_append, List.length_singleton]
          omega)
        (by
          have hoffset : codecHeaderBytes + (i + 1) * 4 = codecHeaderBytes + i * 4 +
              (writeU16 (UInt16.ofNat done.length)).length + (writeU16 (ofInt16 q)).length := by
            simp only [length_writeU16]
            omega
          rw [hoffset, hdrop3, List.length_append, List.length_singleton])
      rw [hcount1, storeCoefficients, readU16_of_drop hdrop1, ok_bind,
        show codecHeaderBytes + i * 4 + 2 = codecHeaderBytes + i * 4 +
          (writeU16 (UInt16.ofNat done.length)).length from rfl, readU16_of_drop hdrop2, ok_bind]
      simp only [pure, Except.pure]
      rw [if_neg hfresh, hindex, toInt16_ofInt16 hbound.1 hbound.2, List.length_cons, hwrite]
      simp only
      rw [h]
      simp [coefficientOf, hzero]

/-! ## The encoder's values -/

theorem quantize_bounds {maximumInteger : ℤ} (h : 0 ≤ maximumInteger)
    (hmax : maximumInteger ≤ 32767) (scale : D) (coefficient : F) :
    -32768 ≤ quantize maximumInteger scale coefficient ∧
      quantize maximumInteger scale coefficient ≤ 32767 := by
  unfold quantize
  simp only
  split_ifs <;> omega

theorem length_softThreshold (coefficients : List F) (firstDetail : ℕ) (threshold : D) :
    (softThreshold coefficients firstDetail threshold).length = coefficients.length := by
  unfold softThreshold
  split
  · rfl
  · rw [List.length_append, List.length_map, List.length_take, List.length_drop]
    omega

theorem maximumInteger_of_le {quantBits : UInt32} (h2 : 2 ≤ quantBits) (h15 : quantBits ≤ 15) :
    maximumInteger quantBits = .ok (2 ^ (quantBits.toNat - 1) - 1) := by
  have h1 : (1 : UInt32) ≤ quantBits := UInt32.le_trans (by decide) h2
  have h31 : quantBits ≤ 31 := UInt32.le_trans h15 (by decide)
  exact if_pos ⟨h1, h31⟩

@[simp] theorem length_codecHeader (windowId : UInt32) (state : AdaptiveState)
    (config : AdaptiveConfig D) (sampleCount nonzero : ℕ) (scale threshold : F) :
    (codecHeader windowId state config sampleCount nonzero scale threshold).length = 24 := rfl

def thresholdOf (coefficients : List F) (state : AdaptiveState) (config : AdaptiveConfig D) : D :=
  config.thresholdGain state * noiseSigma coefficients maxWindow *
    sqrt (lit 2 * log (lit (coefficients.length : ℚ)))

/-- The step between two quantised values, from the coefficients that are left. -/
def stepOf (maximumInteger : ℤ) (coefficients : List F) : D :=
  if maximumMagnitude coefficients > lit 0 then
    maximumMagnitude coefficients / lit (maximumInteger : ℚ)
  else lit 1

/-- Thresholding from index `firstDetail` on, and quantisation. -/
def analysisOf (maximumInteger : ℤ) (firstDetail : ℕ) (threshold : D) (coefficients : List F) :
    Analysis D :=
  let kept := softThreshold coefficients firstDetail threshold
  ⟨threshold, stepOf maximumInteger kept, kept.map (quantize maximumInteger (stepOf maximumInteger kept))⟩

theorem codecAnalyze_of_forward {samples coefficients : List F} {state : AdaptiveState}
    {config : AdaptiveConfig D} (h2 : 2 ≤ config.quantBits state) (h15 : config.quantBits state ≤ 15)
    (hlength : samples.length = config.windowSize) (hwindow : config.windowSize ≤ maxWindow)
    (hforward : db4Forward samples config.windowSize config.waveletLevels.toNat
      (List.replicate maxWindow zeroFloat) = .ok coefficients)
    (hcount : coefficients.length = config.windowSize) :
    codecAnalyze samples state config =
      .ok (analysisOf (2 ^ ((config.quantBits state).toNat - 1) - 1)
        (config.windowSize >>> config.waveletLevels.toNat) (thresholdOf coefficients state config)
        coefficients) := by
  have hu16 : uint16Max = 65535 := rfl
  have hmax : maxWindow = 256 := rfl
  rw [codecAnalyze]
  simp only [hlength]
  rw [if_neg (by omega), hforward, ok_bind, maximumInteger_of_le h2 h15, ok_bind, ← hcount]
  rfl

/-- What is known when the encoder starts to write. -/
structure AnalysisValid (config : AdaptiveConfig D) (a : Analysis D) : Prop where
  geometry : Geometry config.windowSize config.waveletLevels.toNat
  length_quantized : a.quantized.length = config.windowSize
  quantized_bounds : ∀ q ∈ a.quantized, -32768 ≤ q ∧ q ≤ 32767

theorem codecAnalyze_valid {samples : List F} {state : AdaptiveState} {config : AdaptiveConfig D}
    {a : Analysis D} (h2 : 2 ≤ config.quantBits state) (h15 : config.quantBits state ≤ 15)
    (h : codecAnalyze samples state config = .ok a) :
    samples.length = config.windowSize ∧ AnalysisValid config a := by
  rw [codecAnalyze] at h
  simp only at h
  split at h
  · simp at h
  rename_i hargs
  have hcount : samples.length = config.windowSize := by omega
  have hwindow : samples.length ≤ maxWindow := by omega
  rw [bind_eq_ok_iff] at h
  obtain ⟨coefficients, hforward, h⟩ := h
  have hscratch := le_length_scratch (F := F) hwindow
  have hgeometry := geometry_of_db4Forward hscratch hforward
  obtain ⟨coefficients', hforward', hlen⟩ := db4Forward_total _ _ hgeometry (Nat.le_refl _) hscratch
  rw [hforward] at hforward'
  cases hforward'
  rw [maximumInteger_of_le h2 h15, ok_bind] at h
  cases h
  have hbits : (config.quantBits state).toNat ≤ 15 := UInt32.le_iff_toNat_le.mp h15
  have hpow : 2 ^ ((config.quantBits state).toNat - 1) ≤ 2 ^ 14 :=
    Nat.pow_le_pow_right (by omega) (by omega)
  have hone := Nat.two_pow_pos ((config.quantBits state).toNat - 1)
  have hcast : (2 : ℤ) ^ ((config.quantBits state).toNat - 1) =
      ((2 ^ ((config.quantBits state).toNat - 1) : ℕ) : ℤ) := (Int.natCast_pow 2 _).symm
  refine ⟨hcount, hcount ▸ hgeometry, ?_, ?_⟩
  · rw [List.length_map, length_softThreshold, hlen, hcount]
  · intro q hq
    obtain ⟨coefficient, -, rfl⟩ := List.mem_map.mp hq
    exact quantize_bounds (by omega) (by omega) _ coefficient

/-- What a successful call of the encoder has written and reported. -/
theorem codecEncode_eq_ok {samples : List F} {windowId : UInt32} {state : AdaptiveState}
    {config : AdaptiveConfig D} {capacity : ℕ} {output : Bytes} {metadata : CodecMetadata D}
    (h : codecEncode samples windowId state config capacity = .ok (output, metadata)) :
    ∃ a, codecAnalyze samples state config = .ok a ∧
      output = codecHeader windowId state config samples.length (nonzeroCount a.quantized)
          (ofDouble a.scale : F) (ofDouble a.threshold) ++
        writeU32 (crc32Update 0 (pairStream 0 a.quantized)) ++ pairStream 0 a.quantized ∧
      metadata = ⟨windowId, state, samples.length, config.waveletLevels, config.quantBits state,
        nonzeroCount a.quantized, a.threshold, a.scale⟩ ∧
      output.length ≤ capacity := by
  rw [codecEncode, bind_eq_ok_iff] at h
  obtain ⟨a, ha, h⟩ := h
  simp only at h
  split at h
  · simp at h
  rename_i hargs
  cases h
  refine ⟨a, ha, rfl, rfl, ?_⟩
  simp only [List.length_append, length_codecHeader, length_writeU32, length_pairStream]
  simp only [codecHeaderBytes] at hargs
  omega

theorem nonzeroCount_le (quantized : List ℤ) : nonzeroCount quantized ≤ quantized.length :=
  List.countP_le_length

/-! ## The header -/

/-- The header checks pass on what the encoder wrote, and give back its fields, with the
scale that its pattern stands for. -/
theorem readHeader_codecHeader (windowId : UInt32) (state : AdaptiveState)
    {config : AdaptiveConfig D} {quantized : List ℤ} {scale stored : F} (threshold : F)
    {capacity : ℕ} (hgeometry : Geometry config.windowSize config.waveletLevels.toNat)
    (h2 : 2 ≤ config.quantBits state) (h15 : config.quantBits state ≤ 15)
    (hlen : quantized.length = config.windowSize) (hbits : ofBits (toBits scale) = stored)
    (hfinite : CFloat.isfinite stored = true) (hpos : ¬(toDouble stored : D) ≤ lit 0)
    (hcapacity : config.windowSize ≤ capacity) :
    readHeader (codecHeader windowId state config config.windowSize (nonzeroCount quantized)
          scale threshold ++ writeU32 (crc32Update 0 (pairStream 0 quantized)) ++
        pairStream 0 quantized) capacity =
      .ok ⟨windowId, state, config.windowSize, config.waveletLevels, config.quantBits state,
        nonzeroCount quantized, stored, ofBits (toBits threshold)⟩ := by
  set stream := pairStream 0 quantized
  set header := codecHeader windowId state config config.windowSize (nonzeroCount quantized)
    scale threshold ++ writeU32 (crc32Update 0 stream)
  have hheader : header.length = codecHeaderBytes := rfl
  have hstream : stream.length = nonzeroCount quantized * 4 := length_pairStream 0 quantized
  have hnonzero := nonzeroCount_le quantized
  have hwindow : config.windowSize ≤ 256 := hgeometry.count_le
  -- each field comes back as it was written
  have hcount : (u16At header 8).toNat = config.windowSize := by
    have hread : u16At header 8 = UInt16.ofNat config.windowSize := u16At_writeU16 _
    rw [hread, UInt16.toNat_ofNat']
    omega
  have hnz : (u16At header 10).toNat = nonzeroCount quantized := by
    have hread : u16At header 10 = UInt16.ofNat (nonzeroCount quantized) := u16At_writeU16 _
    rw [hread, UInt16.toNat_ofNat']
    omega
  have hlevels : (byteAt header 5).toUInt32 = config.waveletLevels := by
    have hread : byteAt header 5 = config.waveletLevels.toUInt8 := rfl
    have hlt := hgeometry.levels_lt
    apply UInt32.toNat_inj.mp
    rw [hread, UInt8.toNat_toUInt32, UInt32.toNat_toUInt8]
    omega
  have hquant : (byteAt header 6).toUInt32 = config.quantBits state := by
    have hread : byteAt header 6 = (config.quantBits state).toUInt8 := rfl
    have hle : (config.quantBits state).toNat ≤ 15 := UInt32.le_iff_toNat_le.mp h15
    apply UInt32.toNat_inj.mp
    rw [hread, UInt8.toNat_toUInt32, UInt32.toNat_toUInt8]
    omega
  have hstate : AdaptiveState.ofNat? (byteAt header 7).toNat = some state := by
    have hread : byteAt header 7 = UInt8.ofNat state.toNat := rfl
    rw [hread]
    cases state <;> rfl
  have hid : u32At header 12 = windowId := u32At_writeU32 _
  have hscale : u32At header 16 = toBits scale := u32At_writeU32 _
  have hthreshold : u32At header 20 = toBits threshold := u32At_writeU32 _
  have hcrc : u32At header 24 = crc32Update 0 stream := u32At_writeU32 _
  have hfields : headerFields header state = (⟨windowId, state, config.windowSize,
      config.waveletLevels, config.quantBits state, nonzeroCount quantized, stored,
      ofBits (toBits threshold)⟩ : CodecHeader F) := by
    rw [headerFields, hid, hcount, hlevels, hquant, hnz, hscale, hthreshold, hbits]
  rw [readHeader_eq_ok_iff, headerOf, streamOf, List.take_left' hheader, List.drop_left' hheader,
    List.length_append, hheader, hstream]
  refine ⟨Nat.le_add_right _ _, ⟨rfl, rfl, hstate, hfields.symm, ?_⟩, hcrc.symm⟩
  have hlevels_ne : config.waveletLevels ≠ 0 := by
    intro hzero
    have hpos := hgeometry.levels_pos
    rw [hzero] at hpos
    exact Nat.lt_irrefl 0 hpos
  exact ⟨Nat.lt_of_lt_of_le (by decide) hgeometry.eight_le, hgeometry.count_le, hcapacity, hlevels_ne,
    UInt32.lt_iff_toNat_lt.mpr hgeometry.levels_lt, hgeometry.finest, h2, h15, hfinite, hpos, rfl⟩

/-! ## The round trip -/

/-- The stored scale passes the decoder's checks. -/
def GoodScale (F : Type) {D : Type} [CDouble D] [CFloat F D] (scale : D) : Prop :=
  CFloat.isfinite (ofDouble scale : F) = true ∧ ¬(toDouble (ofDouble scale : F) : D) ≤ lit 0

def storedHeader (windowId : UInt32) (state : AdaptiveState) (config : AdaptiveConfig D)
    (a : Analysis D) : CodecHeader F where
  windowId := windowId
  state := state
  count := config.windowSize
  levels := config.waveletLevels
  quantBits := config.quantBits state
  nonzero := nonzeroCount a.quantized
  scale := ofDouble a.scale
  threshold := ofDouble a.threshold

/-- The decoder reaches the inverse transform with the quantised coefficients times the scale
that was stored, whatever becomes of the threshold that it only reports. -/
theorem codecUnpack_of_stored (windowId : UInt32) {samples buffer : List F} {state : AdaptiveState}
    {config : AdaptiveConfig D} {a : Analysis D} {stored : F} (hconfig : ConfigAccepted config)
    (ha : codecAnalyze samples state config = .ok a)
    (hbits : ofBits (toBits (ofDouble a.scale : F)) = stored)
    (hfinite : CFloat.isfinite stored = true) (hpos : ¬(toDouble stored : D) ≤ lit 0)
    (hcapacity : config.windowSize ≤ buffer.length) :
    codecUnpack (codecHeader windowId state config samples.length (nonzeroCount a.quantized)
          (ofDouble a.scale : F) (ofDouble a.threshold) ++
        writeU32 (crc32Update 0 (pairStream 0 a.quantized)) ++ pairStream 0 a.quantized) buffer =
      (.ok { (storedHeader windowId state config a : CodecHeader F) with
          scale := stored, threshold := ofBits (toBits (ofDouble a.threshold : F)) },
        a.quantized.map (coefficientOf stored) ++ buffer.drop config.windowSize) := by
  obtain ⟨hcount, hvalid⟩ := codecAnalyze_valid (hconfig.quantBits_ge state)
    (hconfig.quantBits_le state) ha
  have hheader := readHeader_codecHeader windowId state (ofDouble a.threshold : F) hvalid.geometry
    (hconfig.quantBits_ge state) (hconfig.quantBits_le state) hvalid.length_quantized hbits hfinite
    hpos hcapacity
  have hclear : (List.replicate config.windowSize (zeroFloat : F)).length ≤ buffer.length := by
    rw [List.length_replicate]
    exact hcapacity
  rw [hcount, codecUnpack, hheader]
  simp only
  rw [overwrite_of_le hclear, List.length_replicate]
  simp only
  have hstore := storeCoefficients_pairStream
    (codecHeader windowId state config config.windowSize (nonzeroCount a.quantized)
        (ofDouble a.scale : F) (ofDouble a.threshold) ++
      writeU32 (crc32Update 0 (pairStream 0 a.quantized)) ++ pairStream 0 a.quantized)
    [] stored config.windowSize 0 a.quantized none [] (buffer.drop config.windowSize)
    hvalid.quantized_bounds
    (by rw [hvalid.length_quantized]; simp) hvalid.geometry.count_le (by simp) (by
      rw [List.append_nil]
      exact List.drop_left' (by simp))
  rw [hvalid.length_quantized, List.nil_append, List.nil_append] at hstore
  rw [hstore]
  rfl

/-- Where the scale is stored as it is, these are the coefficients of the encoder. -/
theorem codecUnpack_of_encode (windowId : UInt32) {samples buffer : List F} {state : AdaptiveState}
    {config : AdaptiveConfig D} {a : Analysis D} (hconfig : ConfigAccepted config)
    (ha : codecAnalyze samples state config = .ok a)
    (hbits : ofBits (toBits (ofDouble a.scale : F)) = (ofDouble a.scale : F))
    (hscale : GoodScale F a.scale) (hcapacity : config.windowSize ≤ buffer.length) :
    codecUnpack (codecHeader windowId state config samples.length (nonzeroCount a.quantized)
          (ofDouble a.scale : F) (ofDouble a.threshold) ++
        writeU32 (crc32Update 0 (pairStream 0 a.quantized)) ++ pairStream 0 a.quantized) buffer =
      (.ok { storedHeader windowId state config a with
          threshold := ofBits (toBits (ofDouble a.threshold : F)) },
        a.quantized.map (coefficientOf (ofDouble a.scale)) ++ buffer.drop config.windowSize) :=
  codecUnpack_of_stored windowId hconfig ha hbits hscale.1 hscale.2 hcapacity

theorem codecDecode_of_unpack {input : Bytes} {out : DecodeTarget F D} {header : CodecHeader F}
    {buffer samples : List F} (hunpack : codecUnpack input out.samples = (.ok header, buffer))
    (hinverse : db4Inverse buffer header.count header.levels.toNat
      (List.replicate maxWindow zeroFloat) = .ok samples) :
    codecDecode input out = (.ok (), ⟨samples, header.count, out.metadata.map fun _ =>
      ⟨header.windowId, header.state, header.count, header.levels, header.quantBits,
        header.nonzero, toDouble header.threshold, toDouble header.scale⟩⟩) := by
  rw [codecDecode, hunpack]
  simp only
  rw [hinverse]

/-- What the decoder leaves behind on what the encoder wrote. -/
structure RoundTrip (windowId : UInt32) (state : AdaptiveState) (config : AdaptiveConfig D)
    (a : Analysis D) (output : Bytes) (out : DecodeTarget F D) : Prop where
  /-- The inverse transform starts from the quantised coefficients times the stored scale. -/
  unpack : codecUnpack output out.samples = (.ok (storedHeader windowId state config a),
    a.quantized.map (coefficientOf (ofDouble a.scale)) ++ out.samples.drop config.windowSize)
  /-- It returns, and the reported fields are those of the encoder. -/
  decode : ∃ samples,
    db4Inverse (a.quantized.map (coefficientOf (ofDouble a.scale)) ++
      out.samples.drop config.windowSize) config.windowSize config.waveletLevels.toNat
      (List.replicate maxWindow zeroFloat) = .ok samples ∧
    samples.length = out.samples.length ∧
    codecDecode output out = (.ok (), ⟨samples, config.windowSize, out.metadata.map fun _ =>
      ⟨windowId, state, config.windowSize, config.waveletLevels, config.quantBits state,
        nonzeroCount a.quantized, toDouble (ofDouble a.threshold : F),
        toDouble (ofDouble a.scale : F)⟩⟩)
  length : output.length = 28 + 4 * nonzeroCount a.quantized

theorem roundTrip_of_encode {samples : List F} {windowId : UInt32} {state : AdaptiveState}
    {config : AdaptiveConfig D} {capacity : ℕ} {output : Bytes} {metadata : CodecMetadata D}
    (hconfig : ConfigAccepted config) (hbits : ∀ x : F, ofBits (toBits x) = x)
    (h : codecEncode samples windowId state config capacity = .ok (output, metadata))
    (hscale : GoodScale F metadata.coefficientScale) (out : DecodeTarget F D)
    (hcapacity : config.windowSize ≤ out.samples.length) :
    ∃ a, codecAnalyze samples state config = .ok a ∧
      metadata = ⟨windowId, state, config.windowSize, config.waveletLevels, config.quantBits state,
        nonzeroCount a.quantized, a.threshold, a.scale⟩ ∧
      RoundTrip windowId state config a output out := by
  obtain ⟨a, ha, rfl, rfl, -⟩ := codecEncode_eq_ok h
  obtain ⟨hcount, hvalid⟩ := codecAnalyze_valid (hconfig.quantBits_ge state)
    (hconfig.quantBits_le state) ha
  have hunpack := codecUnpack_of_encode windowId hconfig ha (hbits _) hscale hcapacity
  rw [hbits (ofDouble a.threshold)] at hunpack
  have hlen : (a.quantized.map (coefficientOf (ofDouble a.scale : F)) ++
      out.samples.drop config.windowSize).length = out.samples.length := by
    rw [List.length_append, List.length_map, hvalid.length_quantized, List.length_drop]
    omega
  obtain ⟨samples', hinverse, hlen'⟩ := db4Inverse_total
    (a.quantized.map (coefficientOf (ofDouble a.scale : F)) ++ out.samples.drop config.windowSize)
    (List.replicate maxWindow zeroFloat) hvalid.geometry
    (by rw [hlen]; exact hcapacity) (le_length_scratch hvalid.geometry.count_le)
  refine ⟨a, ha, by rw [hcount], hunpack, ⟨samples', hinverse, by rw [hlen', hlen], ?_⟩, ?_⟩
  · exact codecDecode_of_unpack hunpack hinverse
  · simp only [List.length_append, length_codecHeader, length_writeU32, length_pairStream]
    omega

/-- Decoding inverts encoding up to quantisation: for every accepted configuration,
state, window id and window that is encoded, with a finite and positive stored scale
and room for the window. -/
theorem codecDecode_codecEncode (samples : List F) (windowId : UInt32) (state : AdaptiveState)
    (config : AdaptiveConfig D) (capacity : ℕ) (output : Bytes) (metadata : CodecMetadata D)
    (out : DecodeTarget F D) (hconfig : configValidate config = .ok ())
    (hbits : ∀ x : F, ofBits (toBits x) = x)
    (h : codecEncode samples windowId state config capacity = .ok (output, metadata))
    (hscale : GoodScale F metadata.coefficientScale)
    (hcapacity : config.windowSize ≤ out.samples.length) :
    ∃ a, codecAnalyze samples state config = .ok a ∧
      metadata = ⟨windowId, state, config.windowSize, config.waveletLevels, config.quantBits state,
        nonzeroCount a.quantized, a.threshold, a.scale⟩ ∧
      RoundTrip windowId state config a output out :=
  roundTrip_of_encode (configAccepted_of_validate hconfig) hbits h hscale out hcapacity

/-- A window with four stored coefficients, decoded into a cleared buffer. -/
theorem codecDecode_codecEncode_small :
    ∃ a, codecAnalyze ([1, 2, -1, 0, 0, 5, 3, 2].map Single.ofRat) .normal smallConfig = .ok a ∧
      (⟨7, .normal, 8, 1, 12, 4, 56584158856717182159423828125 / 14832186463126428102881705984,
          12129983 / 4292870144⟩ : CodecMetadata ℚ) =
        ⟨7, .normal, 8, 1, 12, nonzeroCount a.quantized, a.threshold, a.scale⟩ ∧
      RoundTrip 7 .normal smallConfig a
        [65, 68, 87, 49, 1, 1, 12, 1, 8, 0, 4, 0, 7, 0, 0, 0, 229, 45, 57, 59, 67, 40, 116, 64,
          122, 255, 247, 157, 0, 0, 255, 7, 1, 0, 250, 1, 2, 0, 142, 0, 3, 0, 52, 1]
        (⟨List.replicate 8 (Single.ofRat 0), 0, none⟩ : DecodeTarget Single ℚ) :=
  codecDecode_codecEncode ([1, 2, -1, 0, 0, 5, 3, 2].map Single.ofRat) 7 .normal smallConfig
    maxRepresentation _ _ _ (by decide +kernel) (fun _ => rfl) (by decide +kernel)
    ⟨by decide +kernel, by decide +kernel⟩ (by decide)

end AdaptiveLowpan
