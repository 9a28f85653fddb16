import AdaptiveLowpan.CodecHeader
import AdaptiveLowpan.ShiftRegister
import AdaptiveLowpan.RationalArithmetic

/-! # Burst errors in a pair stream

`crc32_update` is a feedback shift register that takes in the bits of each byte from the
lowest one on. An accepted representation whose stream is changed within 32 consecutive
bits is therefore rejected by its CRC. -/

namespace AdaptiveLowpan
open ByteWords CheckedMemory ShiftRegister

/-- The reflected polynomial of `crc32_update`. -/
def crcGenerator : BitVec 32 := 0xedb88320#32

def byteBits (byte : UInt8) : List Bool := (List.range 8).map fun i => byte.toBitVec.getLsbD i

def streamBits (data : Bytes) : List Bool := data.flatMap byteBits

@[simp] theorem length_byteBits (byte : UInt8) : (byteBits byte).length = 8 := rfl

theorem length_streamBits (data : Bytes) : (streamBits data).length = data.length * 8 := by
  induction data with
  | nil => rfl
  | cons byte data ih =>
    rw [streamBits, List.flatMap_cons, List.length_append, length_byteBits, List.length_cons]
    change 8 + (streamBits data).length = _
    omega

theorem toBitVec_crc32Bit (crc : UInt32) :
    (crc32Bit crc).toBitVec = shift crcGenerator crc.toBitVec := by
  have hand : (crc &&& 1).toBitVec = BitVec.setWidth 32 (BitVec.ofBool (crc.toBitVec.getLsbD 0)) := by
    rw [UInt32.toBitVec_and]
    exact BitVec.and_one_eq_setWidth_ofBool_getLsbD
  rw [shift]
  cases hlow : crc.toBitVec.getLsbD 0 with
  | true =>
    have hone : crc &&& 1 = 1 := UInt32.toBitVec_inj.mp (by rw [hand, hlow]; rfl)
    rw [crc32Bit, hone]
    simp [crcGenerator]
  | false =>
    have hzero : crc &&& 1 = 0 := UInt32.toBitVec_inj.mp (by rw [hand, hlow]; rfl)
    rw [crc32Bit, hzero]
    simp

theorem packed_byteBits (byte : UInt8) :
    packed 32 (byteBits byte) = byte.toUInt32.toBitVec := by
  apply BitVec.eq_of_getLsbD_eq
  intro i hi
  rw [getLsbD_packed _ hi, UInt8.toBitVec_toUInt32, BitVec.getLsbD_setWidth]
  by_cases hbyte : i < 8
  · simp [byteBits, hi, hbyte]
  · simp [byteBits, hbyte, BitVec.getLsbD_of_ge byte.toBitVec i (by omega)]

theorem toBitVec_crc32Byte (crc : UInt32) (byte : UInt8) :
    (crc32Byte crc byte).toBitVec = (byteBits byte).foldl (feed crcGenerator) crc.toBitVec := by
  have hshifts (n : ℕ) (x : UInt32) :
      (crc32Bit^[n] x).toBitVec = (shift crcGenerator)^[n] x.toBitVec := by
    induction n generalizing x with
    | zero => rfl
    | succ n ih =>
      rw [Function.iterate_succ_apply, Function.iterate_succ_apply, ih, toBitVec_crc32Bit]
  have hwidth : (byteBits byte).length ≤ 32 := by
    rw [length_byteBits]
    decide
  rw [crc32Byte, hshifts, foldl_feed _ _ hwidth, length_byteBits, packed_byteBits,
    UInt32.toBitVec_xor]

theorem toBitVec_foldl_crc32Byte (crc : UInt32) (data : Bytes) :
    (data.foldl crc32Byte crc).toBitVec =
      (streamBits data).foldl (feed crcGenerator) crc.toBitVec := by
  induction data generalizing crc with
  | nil => rfl
  | cons byte data ih =>
    rw [List.foldl_cons, ih, toBitVec_crc32Byte, streamBits, streamBits, List.flatMap_cons,
      List.foldl_append]

/-- Streams of one length that differ in a burst of up to 32 bits have different CRCs. -/
theorem crc32Update_ne_of_burst (crc : UInt32) {data data' : Bytes}
    (hlength : data.length = data'.length) (hburst : Burst 32 (streamBits data) (streamBits data')) :
    crc32Update crc data ≠ crc32Update crc data' := by
  intro h
  have hcomplement : data.foldl crc32Byte (~~~crc) = data'.foldl crc32Byte (~~~crc) := by
    have hnot := congrArg (~~~·) h
    simpa [crc32Update] using hnot
  have hregisters := congrArg UInt32.toBitVec hcomplement
  rw [toBitVec_foldl_crc32Byte, toBitVec_foldl_crc32Byte] at hregisters
  refine foldl_feed_ne_of_burst (by decide) _ ?_ hburst hregisters
  rw [length_streamBits, length_streamBits, hlength]

variable {F D : Type} [CDouble D] [CFloat F D]

theorem readHeader_of_decoded {input : Bytes} {out : DecodeTarget F D}
    (h : (codecDecode input out).1 = .ok ()) :
    ∃ header : CodecHeader F, readHeader input out.samples.length = .ok header := by
  rw [codecDecode, codecUnpack] at h
  cases hread : (readHeader input out.samples.length : Outcome (CodecHeader F)) with
  | error e =>
    rw [hread] at h
    cases h
  | ok header => exact ⟨header, rfl⟩

theorem codecDecode_of_readHeader_error {input : Bytes} {out : DecodeTarget F D} {e : Stop Failure}
    (h : (readHeader input out.samples.length : Outcome (CodecHeader F)) = .error e) :
    codecDecode input out = (.error e, out) := by
  rw [codecDecode, codecUnpack, h]

/-- An accepted representation whose pair stream is changed, within 32 consecutive bits and
with its length and its header as they were, ends in `ADAPTIVE_ERR_INTEGRITY`. -/
theorem codecDecode_detects_burst (input input' : Bytes) (out out' : DecodeTarget F D)
    (haccepted : (codecDecode input out).1 = .ok ())
    (hcapacity : out.samples.length ≤ out'.samples.length)
    (hlength : input'.length = input.length) (hheader : headerOf input' = headerOf input)
    (hburst : Burst 32 (streamBits (streamOf input)) (streamBits (streamOf input'))) :
    (codecDecode input' out').1 = fail .integrity := by
  obtain ⟨h, hread⟩ := readHeader_of_decoded haccepted
  obtain ⟨hshort, hfields, hcrc⟩ := readHeader_eq_ok_iff.mp hread
  have hfields' : HeaderAccepted (headerOf input') input'.length out'.samples.length h := by
    rw [hheader, hlength]
    exact ⟨hfields.magic, hfields.version, hfields.state, hfields.fields,
      { hfields.inRange with room := hfields.inRange.room.trans hcapacity }⟩
  have hstreams : (streamOf input).length = (streamOf input').length := by
    rw [streamOf, streamOf, List.length_drop, List.length_drop, hlength]
  have hcorrupted := readHeader_corrupted (hlength ▸ hshort) hfields' (by
    rw [hheader, ← hcrc]
    exact (crc32Update_ne_of_burst 0 hstreams hburst).symm)
  rw [codecDecode_of_readHeader_error hcorrupted]
  rfl

/-- The stream of four pairs, and one that differs from its bit 21 to its bit 52. -/
theorem smallStreams_burst :
    Burst 32 (streamBits [0, 0, 255, 7, 1, 0, 250, 1, 2, 0, 142, 0, 3, 0, 52, 1])
      (streamBits [0, 0, 223, 6, 1, 0, 234, 1, 2, 0, 142, 0, 3, 0, 52, 1]) := by
  refine ⟨by decide +kernel, 21, ?_⟩
  intro i hne
  by_cases hi : i < 128
  · revert hne
    revert hi
    revert i
    decide +kernel
  · rw [List.getElem?_eq_none (by rw [length_streamBits]; exact Nat.not_lt.mp hi),
      List.getElem?_eq_none (by rw [length_streamBits]; exact Nat.not_lt.mp hi)] at hne
    exact absurd rfl hne

theorem codecDecode_detects_burst_small :
    (codecDecode [65, 68, 87, 49, 1, 1, 12, 1, 8, 0, 4, 0, 7, 0, 0, 0, 229, 45, 57, 59, 67, 40, 116,
        64, 122, 255, 247, 157, 0, 0, 223, 6, 1, 0, 234, 1, 2, 0, 142, 0, 3, 0, 52, 1]
      (⟨List.replicate 8 (Single.ofRat 0), 0, none⟩ : DecodeTarget Single ℚ)).1 =
        fail .integrity :=
  codecDecode_detects_burst
    [65, 68, 87, 49, 1, 1, 12, 1, 8, 0, 4, 0, 7, 0, 0, 0, 229, 45, 57, 59, 67, 40, 116, 64,
      122, 255, 247, 157, 0, 0, 255, 7, 1, 0, 250, 1, 2, 0, 142, 0, 3, 0, 52, 1]
    _ ⟨List.replicate 8 (Single.ofRat 0), 0, none⟩ _ (by decide +kernel) (Nat.le_refl _)
    rfl rfl smallStreams_burst

end AdaptiveLowpan
