import AdaptiveLowpan.Codec

/-! # What an accepted header is

The decoder accepts an input when its first `codecHeaderBytes` bytes pass the checks of
the fields and the CRC of the pair stream behind them is the stored one. The fields are
functions of the header alone. -/

namespace AdaptiveLowpan
open ByteWords CheckedMemory CDouble CFloat

def byteAt (bytes : Bytes) (k : ℕ) : UInt8 := bytes.getD k 0

def u16At (bytes : Bytes) (k : ℕ) : UInt16 :=
  (byteAt bytes k).toUInt16 ||| ((byteAt bytes (k + 1)).toUInt16 <<< 8)

def u32At (bytes : Bytes) (k : ℕ) : UInt32 :=
  (byteAt bytes k).toUInt32 ||| ((byteAt bytes (k + 1)).toUInt32 <<< 8) |||
    ((byteAt bytes (k + 2)).toUInt32 <<< 16) ||| ((byteAt bytes (k + 3)).toUInt32 <<< 24)

def headerOf (input : Bytes) : Bytes := input.take codecHeaderBytes

def streamOf (input : Bytes) : Bytes := input.drop codecHeaderBytes

section Reads

variable {input : Bytes} {k : ℕ}

theorem readAt_header (h : k < codecHeaderBytes) (hlength : codecHeaderBytes ≤ input.length) :
    (readAt input k : Outcome UInt8) = .ok (byteAt (headerOf input) k) := by
  have hk : k < (headerOf input).length := by
    rw [headerOf, List.length_take]
    omega
  rw [readAt_of_lt (by omega), byteAt, List.getD_eq_getElem _ _ hk]
  simp only [headerOf, List.getElem_take]

theorem readU16_header (h : k + 1 < codecHeaderBytes) (hlength : codecHeaderBytes ≤ input.length) :
    readU16 input k = .ok (u16At (headerOf input) k) := by
  rw [readU16, readAt_header (by omega) hlength, readAt_header h hlength]
  rfl

theorem readU32_header (h : k + 3 < codecHeaderBytes) (hlength : codecHeaderBytes ≤ input.length) :
    readU32 input k = .ok (u32At (headerOf input) k) := by
  rw [readU32, readAt_header (by omega) hlength, readAt_header (by omega) hlength,
    readAt_header (by omega) hlength, readAt_header h hlength]
  rfl

end Reads

variable {F D : Type} [CDouble D] [CFloat F D]

def headerFields (header : Bytes) (state : AdaptiveState) : CodecHeader F where
  windowId := u32At header 12
  state := state
  count := (u16At header 8).toNat
  levels := (byteAt header 5).toUInt32
  quantBits := (byteAt header 6).toUInt32
  nonzero := (u16At header 10).toNat
  scale := ofBits (u32At header 16)
  threshold := ofBits (u32At header 20)

/-- The checks of the fields, for an input of a length and a buffer of a capacity. -/
structure FieldsInRange (inputLength sampleCapacity : ℕ) (h : CodecHeader F) : Prop where
  count_pos : 0 < h.count
  count_le : h.count ≤ maxWindow
  room : h.count ≤ sampleCapacity
  levels_pos : h.levels ≠ 0
  levels_lt : h.levels < 64
  finest : 8 ≤ h.count >>> (h.levels.toNat - 1)
  quantBits_ge : 2 ≤ h.quantBits
  quantBits_le : h.quantBits ≤ 15
  finite : CFloat.isfinite h.scale = true
  positive : ¬(toDouble h.scale : D) ≤ lit 0
  length_eq : codecHeaderBytes + h.nonzero * 4 = inputLength

structure HeaderAccepted (header : Bytes) (inputLength sampleCapacity : ℕ)
    (h : CodecHeader F) : Prop where
  magic : header.take 4 = codecMagic
  version : byteAt header 4 = codecVersion
  state : AdaptiveState.ofNat? (byteAt header 7).toNat = some h.state
  fields : h = headerFields header h.state
  inRange : FieldsInRange inputLength sampleCapacity h

theorem fieldsInRange_iff (header : Bytes) (state : AdaptiveState)
    (inputLength sampleCapacity : ℕ) :
    FieldsInRange inputLength sampleCapacity (headerFields header state : CodecHeader F) ↔
      ¬(u16At header 8 = 0 ∨ (u16At header 8).toNat > maxWindow ∨
        (u16At header 8).toNat > sampleCapacity ∨ (byteAt header 5).toUInt32 = 0 ∨
        (byteAt header 5).toUInt32 ≥ 64 ∨
        (u16At header 8).toNat >>> ((byteAt header 5).toUInt32.toNat - 1) < 8 ∨
        (byteAt header 6).toUInt32 < 2 ∨ (byteAt header 6).toUInt32 > 15 ∨
        ¬CFloat.isfinite (ofBits (u32At header 16) : F) = true ∨
        (toDouble (ofBits (u32At header 16) : F) : D) ≤ lit 0 ∨
        codecHeaderBytes + (u16At header 10).toNat * 4 ≠ inputLength) := by
  have hzero : u16At header 8 = 0 ↔ (u16At header 8).toNat = 0 := UInt16.toNat_inj.symm
  rw [hzero]
  simp only [not_or, not_lt, UInt32.not_lt, UInt32.not_le, not_not, ne_eq]
  constructor
  · rintro ⟨hpos, hmax, hroom, hlevels, hlt, hfinest, hge, hle, hfinite, hscale, hlength⟩
    exact ⟨Nat.pos_iff_ne_zero.mp hpos, hmax, hroom, hlevels, hlt, hfinest, hge, hle, hfinite,
      hscale, hlength⟩
  · rintro ⟨hpos, hmax, hroom, hlevels, hlt, hfinest, hge, hle, hfinite, hscale, hlength⟩
    exact ⟨Nat.pos_iff_ne_zero.mpr hpos, hmax, hroom, hlevels, hlt, hfinest, hge, hle, hfinite,
      hscale, hlength⟩

/-- The ends of `readHeader`, by what the header and the stream are. -/
inductive ReadsHeader (input : Bytes) (sampleCapacity : ℕ) : Outcome (CodecHeader F) → Prop
  | rejected : (∀ h : CodecHeader F, codecHeaderBytes ≤ input.length →
      ¬HeaderAccepted (headerOf input) input.length sampleCapacity h) →
        ReadsHeader input sampleCapacity (fail .format)
  | corrupted (h : CodecHeader F) : codecHeaderBytes ≤ input.length →
      HeaderAccepted (headerOf input) input.length sampleCapacity h →
      crc32Update 0 (streamOf input) ≠ u32At (headerOf input) 24 →
        ReadsHeader input sampleCapacity (fail .integrity)
  | accepted (h : CodecHeader F) : codecHeaderBytes ≤ input.length →
      HeaderAccepted (headerOf input) input.length sampleCapacity h →
      crc32Update 0 (streamOf input) = u32At (headerOf input) 24 →
        ReadsHeader input sampleCapacity (.ok h)

theorem readHeader_cases (input : Bytes) (sampleCapacity : ℕ) :
    ReadsHeader input sampleCapacity (readHeader input sampleCapacity : Outcome (CodecHeader F)) := by
  rw [readHeader]
  split
  · exact .rejected fun h hlength => absurd hlength (by omega)
  rename_i hshort
  have hlength : codecHeaderBytes ≤ input.length := Nat.not_lt.mp hshort
  have hfour : 4 ≤ codecHeaderBytes := by decide
  have hmagic : (readSlice input 0 4 : Outcome Bytes) = .ok ((headerOf input).take 4) := by
    rw [readSlice_of_le (by omega), headerOf, List.take_take]
    rfl
  have hstream : (readSlice input codecHeaderBytes (input.length - codecHeaderBytes) :
      Outcome Bytes) = .ok (streamOf input) := by
    rw [readSlice_of_le (by omega), streamOf, List.take_of_length_le (by rw [List.length_drop])]
  rw [hmagic, ok_bind, readAt_header (by decide) hlength, ok_bind]
  split
  · rename_i hformat
    exact .rejected fun h _ haccepted =>
      hformat.elim (absurd haccepted.magic) (absurd haccepted.version)
  rename_i hformat
  rw [not_or, not_not, not_not] at hformat
  rw [readAt_header (by decide) hlength, ok_bind, readAt_header (by decide) hlength, ok_bind,
    readAt_header (by decide) hlength, ok_bind, readU16_header (by decide) hlength, ok_bind,
    readU16_header (by decide) hlength, ok_bind, readU32_header (by decide) hlength, ok_bind,
    readU32_header (by decide) hlength, ok_bind, readU32_header (by decide) hlength, ok_bind,
    readU32_header (by decide) hlength, ok_bind]
  split
  · rename_i hstate
    exact .rejected fun h _ haccepted => absurd haccepted.state (by rw [hstate]; exact nofun)
  rename_i state hstate
  have hrange := fieldsInRange_iff (F := F) (headerOf input) state input.length sampleCapacity
  split
  · rename_i hchecks
    refine .rejected fun h _ haccepted => ?_
    obtain rfl : state = h.state := Option.some.inj (hstate.symm.trans haccepted.state)
    have hinRange := haccepted.inRange
    rw [haccepted.fields] at hinRange
    exact hrange.mp hinRange hchecks
  rename_i hchecks
  rw [hstream, ok_bind]
  have haccepted : HeaderAccepted (headerOf input) input.length sampleCapacity
      (headerFields (headerOf input) state : CodecHeader F) :=
    ⟨hformat.1, hformat.2, hstate, rfl, hrange.mpr hchecks⟩
  split
  · rename_i hcrc
    exact .corrupted _ hlength haccepted hcrc
  · rename_i hcrc
    exact .accepted _ hlength haccepted (not_not.mp hcrc)

/-- An accepted header determines its fields. -/
theorem HeaderAccepted.unique {header : Bytes} {inputLength inputLength' sampleCapacity
    sampleCapacity' : ℕ} {h h' : CodecHeader F}
    (haccepted : HeaderAccepted header inputLength sampleCapacity h)
    (haccepted' : HeaderAccepted header inputLength' sampleCapacity' h') : h = h' := by
  have hstate : h.state = h'.state :=
    Option.some.inj (haccepted.state.symm.trans haccepted'.state)
  rw [haccepted.fields, haccepted'.fields, hstate]

theorem readHeader_eq_ok_iff {input : Bytes} {sampleCapacity : ℕ} {h : CodecHeader F} :
    readHeader input sampleCapacity = .ok h ↔ codecHeaderBytes ≤ input.length ∧
      HeaderAccepted (headerOf input) input.length sampleCapacity h ∧
      crc32Update 0 (streamOf input) = u32At (headerOf input) 24 := by
  have hcases := readHeader_cases (F := F) input sampleCapacity
  generalize (readHeader input sampleCapacity : Outcome (CodecHeader F)) = result at hcases ⊢
  cases hcases with
  | rejected hnone =>
    refine iff_of_false fail_ne_ok ?_
    rintro ⟨hlength, haccepted, -⟩
    exact hnone h hlength haccepted
  | corrupted h' hlength haccepted hcrc =>
    refine iff_of_false fail_ne_ok ?_
    rintro ⟨-, -, heq⟩
    exact hcrc heq
  | accepted h' hlength haccepted hcrc =>
    constructor
    · intro heq
      cases heq
      exact ⟨hlength, haccepted, hcrc⟩
    · rintro ⟨-, haccepted', -⟩
      rw [haccepted.unique haccepted']

theorem readHeader_corrupted {input : Bytes} {sampleCapacity : ℕ} {h : CodecHeader F}
    (hlength : codecHeaderBytes ≤ input.length)
    (haccepted : HeaderAccepted (headerOf input) input.length sampleCapacity h)
    (hcrc : crc32Update 0 (streamOf input) ≠ u32At (headerOf input) 24) :
    (readHeader input sampleCapacity : Outcome (CodecHeader F)) = fail .integrity := by
  have hcases := readHeader_cases (F := F) input sampleCapacity
  generalize (readHeader input sampleCapacity : Outcome (CodecHeader F)) = result at hcases ⊢
  cases hcases with
  | rejected hnone => exact absurd haccepted (hnone h hlength)
  | corrupted => rfl
  | accepted _ _ _ heq => exact absurd heq hcrc

end AdaptiveLowpan
