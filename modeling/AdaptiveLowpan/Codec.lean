import AdaptiveLowpan.Config
import AdaptiveLowpan.Wavelet

/-! # The sparse coefficient codec

A representation is a header of `codecHeaderBytes` and one four-byte pair
`(index, value)` for each nonzero quantised coefficient, in ascending order. -/

namespace AdaptiveLowpan
open ByteWords CheckedMemory CDouble CFloat

abbrev codecHeaderBytes : ℕ := 28
abbrev codecVersion : UInt8 := 1

def codecMagic : Bytes := [0x41, 0x44, 0x57, 0x31]

def writeU16 (value : UInt16) : Bytes := [(value &&& 0xff).toUInt8, (value >>> 8).toUInt8]

def writeU32 (value : UInt32) : Bytes :=
  [(value &&& 0xff).toUInt8, ((value >>> 8) &&& 0xff).toUInt8,
    ((value >>> 16) &&& 0xff).toUInt8, (value >>> 24).toUInt8]

def readU16 (input : Bytes) (offset : ℕ) : Outcome UInt16 := do
  let b0 ← readAt input offset
  let b1 ← readAt input (offset + 1)
  return b0.toUInt16 ||| (b1.toUInt16 <<< 8)

def readU32 (input : Bytes) (offset : ℕ) : Outcome UInt32 := do
  let b0 ← readAt input offset
  let b1 ← readAt input (offset + 1)
  let b2 ← readAt input (offset + 2)
  let b3 ← readAt input (offset + 3)
  return b0.toUInt32 ||| (b1.toUInt32 <<< 8) ||| (b2.toUInt32 <<< 16) ||| (b3.toUInt32 <<< 24)

def toInt16 (value : UInt16) : ℤ :=
  if value.toNat < 32768 then value.toNat else (value.toNat : ℤ) - 65536

def ofInt16 (value : ℤ) : UInt16 := UInt16.ofNat (value % 65536).toNat

def crc32Bit (crc : UInt32) : UInt32 :=
  let mask := 0 - (crc &&& 1)
  (crc >>> 1) ^^^ (0xedb88320 &&& mask)

def crc32Byte (crc : UInt32) (byte : UInt8) : UInt32 := crc32Bit^[8] (crc ^^^ byte.toUInt32)

def crc32Update (crc : UInt32) (data : Bytes) : UInt32 := ~~~(data.foldl crc32Byte (~~~crc))

structure CodecMetadata (D : Type) where
  windowId : UInt32
  state : AdaptiveState
  sampleCount : ℕ
  levels : UInt32
  quantBits : UInt32
  nonzeroCoefficients : ℕ
  threshold : D
  coefficientScale : D
  deriving DecidableEq

variable {F D : Type} [CDouble D] [CFloat F D]

/-! ## Encoding -/

/-- `lround(coefficient / scale)` clamped to the signed width. -/
def quantize (maximumInteger : ℤ) (scale : D) (coefficient : F) : ℤ :=
  let quantized := lround (toDouble coefficient / scale)
  let quantized := if quantized > maximumInteger then maximumInteger else quantized
  if quantized < -maximumInteger then -maximumInteger else quantized

/-- What `adaptive_codec_encode` has computed when it starts to write. -/
structure Analysis (D : Type) where
  threshold : D
  scale : D
  quantized : List ℤ

/-- `(1 << (quant_bits - 1U)) - 1`, where the shift is defined on `int`. -/
def maximumInteger (quantBits : UInt32) : Outcome ℤ :=
  if 1 ≤ quantBits ∧ quantBits ≤ 31 then .ok (2 ^ (quantBits.toNat - 1) - 1) else .error .fault

def maximumMagnitude (coefficients : List F) : D :=
  coefficients.foldl (fun maximum coefficient =>
    let magnitude := fabs (toDouble coefficient)
    if magnitude > maximum then magnitude else maximum) (lit 0)

/-- `adaptive_codec_encode` up to the capacity check. -/
def codecAnalyze (samples : List F) (state : AdaptiveState) (config : AdaptiveConfig D) :
    Outcome (Analysis D) := do
  let sampleCount := samples.length
  if sampleCount ≠ config.windowSize ∨ sampleCount > maxWindow ∨ sampleCount > uint16Max then
    fail .range
  else
    let scratch := List.replicate maxWindow (zeroFloat : F)
    let levels := config.waveletLevels.toNat
    let coefficients ← db4Forward samples sampleCount levels scratch
    let sigma := noiseSigma coefficients maxWindow
    let threshold :=
      config.thresholdGain state * sigma * sqrt (lit 2 * log (lit (sampleCount : ℚ)))
    let coefficients := softThreshold coefficients (sampleCount >>> levels) threshold
    let maximum := maximumMagnitude coefficients
    let maximumInteger ← maximumInteger (config.quantBits state)
    let scale := if maximum > lit 0 then maximum / lit (maximumInteger : ℚ) else lit 1
    return ⟨threshold, scale, coefficients.map (quantize maximumInteger scale)⟩

def nonzeroCount (quantized : List ℤ) : ℕ := quantized.countP (· ≠ 0)

def pairStream : ℕ → List ℤ → Bytes
  | _, [] => []
  | i, q :: quantized =>
    (if q ≠ 0 then writeU16 (UInt16.ofNat i) ++ writeU16 (ofInt16 q) else []) ++
      pairStream (i + 1) quantized

def codecHeader (windowId : UInt32) (state : AdaptiveState) (config : AdaptiveConfig D)
    (sampleCount nonzero : ℕ) (scale threshold : F) : Bytes :=
  codecMagic ++ [codecVersion, config.waveletLevels.toUInt8, (config.quantBits state).toUInt8,
      UInt8.ofNat state.toNat] ++
    writeU16 (UInt16.ofNat sampleCount) ++ writeU16 (UInt16.ofNat nonzero) ++
    writeU32 windowId ++ writeU32 (toBits scale) ++ writeU32 (toBits threshold)

def codecEncode (samples : List F) (windowId : UInt32) (state : AdaptiveState)
    (config : AdaptiveConfig D) (outputCapacity : ℕ) : Outcome (Bytes × CodecMetadata D) := do
  let a ← codecAnalyze samples state config
  let nonzero := nonzeroCount a.quantized
  if nonzero > uint16Max ∨ codecHeaderBytes + nonzero * 4 > outputCapacity then fail .capacity
  else
    let scale : F := ofDouble a.scale
    let threshold : F := ofDouble a.threshold
    let stream := pairStream 0 a.quantized
    let output := codecHeader windowId state config samples.length nonzero scale threshold ++
      writeU32 (crc32Update 0 stream) ++ stream
    return (output, ⟨windowId, state, samples.length, config.waveletLevels,
      config.quantBits state, nonzero, a.threshold, a.scale⟩)

/-! ## Decoding -/

/-- The header fields that `adaptive_codec_decode` has accepted. -/
structure CodecHeader (F : Type) where
  windowId : UInt32
  state : AdaptiveState
  count : ℕ
  levels : UInt32
  quantBits : UInt32
  nonzero : ℕ
  scale : F
  threshold : F

/-- The header and CRC checks of `adaptive_codec_decode`. -/
def readHeader (input : Bytes) (sampleCapacity : ℕ) : Outcome (CodecHeader F) := do
  if input.length < codecHeaderBytes then fail .format
  else
    let magic ← readSlice input 0 4
    let version ← readAt input 4
    if magic ≠ codecMagic ∨ version ≠ codecVersion then fail .format
    else
      let levels := (← readAt input 5).toUInt32
      let quantBits := (← readAt input 6).toUInt32
      let state ← readAt input 7
      let count ← readU16 input 8
      let nonzero ← readU16 input 10
      let windowId ← readU32 input 12
      let scale : F := ofBits (← readU32 input 16)
      let threshold : F := ofBits (← readU32 input 20)
      let expectedCrc ← readU32 input 24
      match AdaptiveState.ofNat? state.toNat with
      | none => fail .format
      | some state =>
        if count = 0 ∨ count.toNat > maxWindow ∨ count.toNat > sampleCapacity ∨
            levels = 0 ∨ levels ≥ 64 ∨ count.toNat >>> (levels.toNat - 1) < 8 ∨
            quantBits < 2 ∨ quantBits > 15 ∨
            ¬CFloat.isfinite scale ∨ (toDouble scale : D) ≤ lit 0 ∨
            codecHeaderBytes + nonzero.toNat * 4 ≠ input.length then
          fail .format
        else
          let stream ← readSlice input codecHeaderBytes (input.length - codecHeaderBytes)
          if crc32Update 0 stream ≠ expectedCrc then fail .integrity
          else return ⟨windowId, state, count.toNat, levels, quantBits, nonzero.toNat, scale,
            threshold⟩

/-- The loop over the pairs, from pair `i` on; a stop leaves the samples as they are. -/
def storeCoefficients (input : Bytes) (scale : F) (count : ℕ) :
    ℕ → ℕ → Option UInt16 → List F → Outcome Unit × List F
  | 0, _, _, samples => (.ok (), samples)
  | remaining + 1, i, previous, samples =>
    let offset := codecHeaderBytes + i * 4
    match (do return (← readU16 input offset, ← readU16 input (offset + 2)) :
      Outcome (UInt16 × UInt16)) with
    | .error e => (.error e, samples)
    | .ok (index, quantized) =>
      if index.toNat ≥ count ∨ (∃ p ∈ previous, index ≤ p) then (fail .format, samples)
      else
        match writeAt samples index.toNat (mulInt (toInt16 quantized) scale) with
        | .error e => (.error e, samples)
        | .ok samples => storeCoefficients input scale count remaining (i + 1) (some index) samples

/-- `adaptive_codec_decode` up to the call of `adaptive_db4_inverse`, with the
contents of the sample buffer. -/
def codecUnpack (input : Bytes) (samples : List F) : Outcome (CodecHeader F) × List F :=
  match readHeader input samples.length with
  | .error e => (.error e, samples)
  | .ok h =>
    match overwrite samples (List.replicate h.count zeroFloat) with
    | .error e => (.error e, samples)
    | .ok samples =>
      match storeCoefficients input h.scale h.count h.nonzero 0 none samples with
      | (.error e, samples) => (.error e, samples)
      | (.ok (), samples) => (.ok h, samples)

/-- The objects that `adaptive_codec_decode` writes: the sample buffer with its
capacity, the sample count, and the metadata if the caller passed any. -/
structure DecodeTarget (F D : Type) where
  samples : List F
  sampleCount : ℕ
  metadata : Option (CodecMetadata D)

def codecDecode (input : Bytes) (out : DecodeTarget F D) : Outcome Unit × DecodeTarget F D :=
  match codecUnpack input out.samples with
  | (.error e, samples) => (.error e, { out with samples })
  | (.ok h, samples) =>
    match db4Inverse samples h.count h.levels.toNat (List.replicate maxWindow zeroFloat) with
    | .error e => (.error e, { out with samples })
    | .ok samples =>
      (.ok (), ⟨samples, h.count, out.metadata.map fun _ =>
        ⟨h.windowId, h.state, h.count, h.levels, h.quantBits, h.nonzero,
          toDouble h.threshold, toDouble h.scale⟩⟩)

end AdaptiveLowpan
