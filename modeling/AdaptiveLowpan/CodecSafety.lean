import AdaptiveLowpan.CodecBuffers
import AdaptiveLowpan.CodecHeader

/-! # The decoder on arbitrary bytes

The decoder with its capacity apart from the buffer that it writes to, and with every
shift by a number of the input checked against the width of a `size_t` (the others are
by 1, 8, 16 and 24 places of a 32-bit word). It ends as the decoder of `Codec` does, and
never in a fault, on any bytes and over a buffer of the least size. -/

namespace AdaptiveLowpan.CodecSafety
open ByteWords CheckedMemory CDouble CFloat

/-- `value >> amount`, where the shift is defined on `size_t`. -/
def shiftRight (value amount : ℕ) : Outcome ℕ :=
  if amount < 64 then .ok (value >>> amount) else .error .fault

/-- `value << amount`, where the shift is defined on `size_t`. -/
def shiftLeft (value amount : ℕ) : Outcome ℕ :=
  if amount < 64 then .ok (value <<< amount % 2 ^ 64) else .error .fault

def validateTransform (count : ℕ) (levels : UInt32) (scratchCount : ℕ) : Outcome Unit := do
  if count < 8 ∨ count > maxWindow ∨ levels = 0 ∨ levels ≥ 64 ∨ scratchCount < count then
    fail .range
  else if (← shiftRight count (levels - 1).toNat) < 8 then fail .range
  else
    let divisor ← shiftLeft 1 levels.toNat
    if count % divisor ≠ 0 ∨ count / divisor < 1 then fail .range else return ()

variable {F D : Type} [CDouble D] [CFloat F D]

def db4Inverse (coefficients : List F) (count : ℕ) (levels : UInt32) (scratch : List F) :
    Outcome (List F) := do
  validateTransform count levels scratch.length
  let current ← shiftRight count levels.toNat
  inverseLevels levels.toNat current coefficients scratch

/-- The header and CRC checks of `adaptive_codec_decode`. -/
def readHeader (input : Bytes) (sampleCapacity : ℕ) : Outcome (CodecHeader F) := do
  if input.length < codecHeaderBytes then fail .format
  else
    let magic ← readSlice input 0 4
    let version ← readAt input 4
    if magic ≠ codecMagic ∨ version ≠ codecVersion then fail .format
    else
      let levels := (← readAt input 5).toUInt32
      let quantBits := (← readAt input 6).toUInt32
      let state ← readAt input 7
      let count ← readU16 input 8
      let nonzero ← readU16 input 10
      let windowId ← readU32 input 12
      let scale : F := ofBits (← readU32 input 16)
      let threshold : F := ofBits (← readU32 input 20)
      let expectedCrc ← readU32 input 24
      if count = 0 ∨ count.toNat > maxWindow ∨ count.toNat > sampleCapacity ∨ levels = 0 ∨
          levels ≥ 64 then
        fail .format
      else if (← shiftRight count.toNat (levels - 1).toNat) < 8 then fail .format
      else
        match AdaptiveState.ofNat? state.toNat with
        | none => fail .format
        | some state =>
          if quantBits < 2 ∨ quantBits > 15 ∨ ¬CFloat.isfinite scale ∨
              (toDouble scale : D) ≤ lit 0 ∨
              codecHeaderBytes + nonzero.toNat * 4 ≠ input.length then
            fail .format
          else
            let stream ← readSlice input codecHeaderBytes (input.length - codecHeaderBytes)
            if crc32Update 0 stream ≠ expectedCrc then fail .integrity
            else return ⟨windowId, state, count.toNat, levels, quantBits, nonzero.toNat, scale,
              threshold⟩

/-- `adaptive_codec_decode` up to the call of `adaptive_db4_inverse`. -/
def codecUnpack (input : Bytes) (sampleCapacity : ℕ) (samples : List F) :
    Outcome (CodecHeader F) × List F :=
  match readHeader input sampleCapacity with
  | .error e => (.error e, samples)
  | .ok h =>
    match overwrite samples (List.replicate h.count zeroFloat) with
    | .error e => (.error e, samples)
    | .ok samples =>
      match storeCoefficients input h.scale h.count h.nonzero 0 none samples with
      | (.error e, samples) => (.error e, samples)
      | (.ok (), samples) => (.ok h, samples)

/-- `adaptive_codec_decode`, which writes to the samples of `out` and is told the number
`sampleCapacity` of them. -/
def codecDecode (input : Bytes) (sampleCapacity : ℕ) (out : DecodeTarget F D) :
    Outcome Unit × DecodeTarget F D :=
  match codecUnpack input sampleCapacity out.samples with
  | (.error e, samples) => (.error e, { out with samples })
  | (.ok h, samples) =>
    match db4Inverse samples h.count h.levels (List.replicate maxWindow zeroFloat) with
    | .error e => (.error e, { out with samples })
    | .ok samples =>
      (.ok (), ⟨samples, h.count, out.metadata.map fun _ =>
        ⟨h.windowId, h.state, h.count, h.levels, h.quantBits, h.nonzero,
          toDouble h.threshold, toDouble h.scale⟩⟩)

/-! ## The shifts -/

theorem shiftRight_of_lt (value : ℕ) {amount : ℕ} (h : amount < 64) :
    shiftRight value amount = .ok (value >>> amount) := if_pos h

theorem shiftLeft_one {amount : ℕ} (h : amount < 64) : shiftLeft 1 amount = .ok (2 ^ amount) := by
  rw [shiftLeft, if_pos h, Nat.one_shiftLeft, Nat.mod_eq_of_lt (Nat.pow_lt_pow_right (by decide) h)]

/-- The number of levels whose shift amounts stay below the width. -/
theorem toNat_levels {levels : UInt32} (hpos : ¬levels = 0) (hlt : ¬levels ≥ 64) :
    levels.toNat < 64 ∧ (levels - 1).toNat = levels.toNat - 1 := by
  have hlt' : levels.toNat < 64 := UInt32.lt_iff_toNat_lt.mp (UInt32.not_le.mp hlt)
  have hone : (1 : UInt32) ≤ levels := by
    rw [UInt32.le_iff_toNat_le]
    refine Nat.pos_iff_ne_zero.mpr ?_
    intro hzero
    exact hpos (UInt32.toNat_inj.mp hzero)
  exact ⟨hlt', UInt32.toNat_sub_of_le _ _ hone⟩

theorem validateTransform_eq (count : ℕ) (levels : UInt32) (scratchCount : ℕ) :
    validateTransform count levels scratchCount =
      AdaptiveLowpan.validateTransform count levels.toNat scratchCount := by
  have hzero : levels = 0 ↔ levels.toNat = 0 := UInt32.toNat_inj.symm
  have hwidth : levels ≥ 64 ↔ levels.toNat ≥ 64 := UInt32.le_iff_toNat_le
  rw [validateTransform, AdaptiveLowpan.validateTransform]
  by_cases hrange : count < 8 ∨ count > maxWindow ∨ levels = 0 ∨ levels ≥ 64 ∨ scratchCount < count
  · rw [if_pos hrange, if_pos (by rwa [← hzero, ← hwidth])]
  · rw [if_neg hrange, if_neg (by rwa [← hzero, ← hwidth])]
    simp only [not_or] at hrange
    obtain ⟨hlt, hpred⟩ := toNat_levels hrange.2.2.1 hrange.2.2.2.1
    rw [hpred, shiftRight_of_lt _ (by omega), ok_bind, shiftLeft_one hlt, ok_bind]
    rfl

theorem db4Inverse_eq (coefficients : List F) (count : ℕ) (levels : UInt32) (scratch : List F) :
    db4Inverse coefficients count levels scratch =
      AdaptiveLowpan.db4Inverse coefficients count levels.toNat scratch := by
  rw [db4Inverse, AdaptiveLowpan.db4Inverse, validateTransform_eq]
  cases hvalid : AdaptiveLowpan.validateTransform count levels.toNat scratch.length with
  | error e => rfl
  | ok _ =>
    have hlt : levels.toNat < 64 := by
      rw [AdaptiveLowpan.validateTransform] at hvalid
      split at hvalid
      · cases hvalid
      · omega
    rw [ok_bind, ok_bind, shiftRight_of_lt _ hlt, ok_bind]

theorem readHeader_eq (input : Bytes) (sampleCapacity : ℕ) :
    (readHeader input sampleCapacity : Outcome (CodecHeader F)) =
      AdaptiveLowpan.readHeader input sampleCapacity := by
  rw [readHeader, AdaptiveLowpan.readHeader]
  by_cases hshort : input.length < codecHeaderBytes
  · rw [if_pos hshort, if_pos hshort]
  rw [if_neg hshort, if_neg hshort]
  have hlength : codecHeaderBytes ≤ input.length := Nat.not_lt.mp hshort
  have hfour : 4 ≤ codecHeaderBytes := by decide
  rw [readSlice_of_le (by omega), ok_bind, ok_bind, readAt_header (by decide) hlength, ok_bind,
    ok_bind]
  split
  · rfl
  rw [readAt_header (by decide) hlength, readAt_header (by decide) hlength,
    readAt_header (by decide) hlength, readU16_header (by decide) hlength,
    readU16_header (by decide) hlength, readU32_header (by decide) hlength,
    readU32_header (by decide) hlength, readU32_header (by decide) hlength,
    readU32_header (by decide) hlength]
  simp only [ok_bind]
  generalize u16At (headerOf input) 8 = count
  generalize (byteAt (headerOf input) 5).toUInt32 = levels
  generalize AdaptiveState.ofNat? (byteAt (headerOf input) 7).toNat = state
  set range := count = 0 ∨ count.toNat > maxWindow ∨ count.toNat > sampleCapacity ∨
    levels = 0 ∨ levels ≥ 64 with hrange
  -- the model makes these checks together with the later ones
  have hchecks (later : Prop) : (range ∨ later) ↔ count = 0 ∨ count.toNat > maxWindow ∨
      count.toNat > sampleCapacity ∨ levels = 0 ∨ levels ≥ 64 ∨ later := by
    simp only [hrange, or_assoc]
  by_cases hout : range
  · -- both leave with the format error before the shift
    rw [if_pos hout]
    cases state with
    | none => rfl
    | some state => exact (if_pos ((hchecks _).mp (.inl hout))).symm
  have hin := hout
  simp only [hrange, not_or] at hin
  obtain ⟨hlt, hpred⟩ := toNat_levels hin.2.2.2.1 hin.2.2.2.2
  rw [if_neg hout, hpred, shiftRight_of_lt _ (by omega), ok_bind]
  by_cases hfinest : count.toNat >>> (levels.toNat - 1) < 8
  · rw [if_pos hfinest]
    cases state with
    | none => rfl
    | some state => exact (if_pos ((hchecks _).mp (.inr (.inl hfinest)))).symm
  rw [if_neg hfinest]
  cases state with
  | none => rfl
  | some state =>
    refine if_congr ?_ rfl rfl
    exact ((or_iff_right hfinest).symm.trans (or_iff_right hout).symm).trans (hchecks _)

theorem codecUnpack_eq (input : Bytes) (samples : List F) :
    codecUnpack input samples.length samples = AdaptiveLowpan.codecUnpack input samples := by
  rewrite [codecUnpack, AdaptiveLowpan.codecUnpack, readHeader_eq]
  rfl

/-- The decoder of the model, over a buffer of the announced size. -/
theorem codecDecode_eq (input : Bytes) (out : DecodeTarget F D) :
    codecDecode input out.samples.length out = AdaptiveLowpan.codecDecode input out := by
  have hinverse : (db4Inverse : List F → ℕ → UInt32 → List F → Outcome (List F)) =
      fun coefficients count levels scratch =>
        AdaptiveLowpan.db4Inverse coefficients count levels.toNat scratch := by
    funext coefficients count levels scratch
    exact db4Inverse_eq coefficients count levels scratch
  rewrite [codecDecode, AdaptiveLowpan.codecDecode, codecUnpack_eq, hinverse]
  rfl

/-! ## Faults -/

theorem readU16_of_lt {input : Bytes} {offset : ℕ} (h : offset + 1 < input.length) :
    ∃ value, readU16 input offset = .ok value := by
  rw [readU16, readAt_of_lt (by omega), ok_bind, readAt_of_lt h, ok_bind]
  exact ⟨_, rfl⟩

/-- The loop reads pairs of the input and writes below the sample count. -/
theorem storeCoefficients_ne_fault {input : Bytes} (scale : F) {count remaining i : ℕ}
    (previous : Option UInt16) (samples : List F) (hcount : count ≤ samples.length)
    (hinput : codecHeaderBytes + (i + remaining) * 4 = input.length) :
    (storeCoefficients input scale count remaining i previous samples).1 ≠ .error .fault ∧
      (storeCoefficients input scale count remaining i previous samples).2.length =
        samples.length := by
  induction remaining generalizing i previous samples with
  | zero => exact ⟨nofun, rfl⟩
  | succ remaining ih =>
    obtain ⟨index, hindex⟩ :=
      readU16_of_lt (show codecHeaderBytes + i * 4 + 1 < input.length by omega)
    obtain ⟨quantized, hquantized⟩ :=
      readU16_of_lt (show codecHeaderBytes + i * 4 + 2 + 1 < input.length by omega)
    rw [storeCoefficients, hindex, ok_bind, hquantized, ok_bind]
    simp only [pure, Except.pure]
    split
    · exact ⟨fail_ne_fault, rfl⟩
    rename_i hfresh
    rw [writeAt_of_lt _ (by omega)]
    obtain ⟨hfault, hlength⟩ := ih (i := i + 1) (some index)
      (samples.set index.toNat (mulInt (toInt16 quantized) scale))
      (by rwa [List.length_set]) (by omega)
    exact ⟨hfault, hlength.trans List.length_set⟩

theorem codecUnpack_ne_fault (input : Bytes) {sampleCapacity : ℕ} {samples : List F}
    (hroom : min sampleCapacity maxWindow ≤ samples.length) :
    (codecUnpack input sampleCapacity samples).1 ≠ .error .fault ∧
      (codecUnpack input sampleCapacity samples).2.length = samples.length ∧
      ∀ h, (codecUnpack input sampleCapacity samples).1 = .ok h →
        h.count ≤ maxWindow ∧ h.count ≤ samples.length := by
  rw [codecUnpack, readHeader_eq]
  have hcases := readHeader_cases (F := F) input sampleCapacity
  generalize (AdaptiveLowpan.readHeader input sampleCapacity : Outcome (CodecHeader F)) = result
    at hcases ⊢
  cases hcases with
  | rejected => exact ⟨fail_ne_fault, rfl, nofun⟩
  | corrupted => exact ⟨fail_ne_fault, rfl, nofun⟩
  | accepted h hlength haccepted hcrc =>
    have hmax := haccepted.inRange.count_le
    have hcount : h.count ≤ samples.length := by
      have := haccepted.inRange.room
      omega
    have hclear : (List.replicate h.count (zeroFloat : F)).length ≤ samples.length := by
      rwa [List.length_replicate]
    simp only
    rw [overwrite_of_le hclear, List.length_replicate]
    simp only
    have hcleared : (List.replicate h.count (zeroFloat : F) ++ samples.drop h.count).length =
        samples.length := by
      rw [List.length_append, List.length_replicate, List.length_drop]
      omega
    have hpairs : codecHeaderBytes + (0 + h.nonzero) * 4 = input.length := by
      rw [Nat.zero_add]
      exact haccepted.inRange.length_eq
    obtain ⟨hfault, hkept⟩ := storeCoefficients_ne_fault h.scale none
      (List.replicate h.count (zeroFloat : F) ++ samples.drop h.count) (hcleared.symm ▸ hcount) hpairs
    generalize storeCoefficients input h.scale h.count h.nonzero 0 none _ = r at hfault hkept ⊢
    obtain ⟨result, stored⟩ := r
    cases result with
    | error e =>
      refine ⟨?_, hkept.trans hcleared, nofun⟩
      intro heq
      cases heq
      exact hfault rfl
    | ok u =>
      refine ⟨nofun, hkept.trans hcleared, ?_⟩
      intro h' heq
      cases heq
      exact ⟨hmax, hcount⟩

theorem validateTransform_ends (count levels scratchCount : ℕ) :
    AdaptiveLowpan.validateTransform count levels scratchCount = .ok () ∨
      AdaptiveLowpan.validateTransform count levels scratchCount = fail .range := by
  rw [AdaptiveLowpan.validateTransform]
  split
  · exact Or.inr rfl
  split
  · exact Or.inr rfl
  split
  · exact Or.inr rfl
  · exact Or.inl rfl

theorem db4Inverse_ne_fault (coefficients scratch : List F) {count : ℕ} (levels : ℕ)
    (hc : count ≤ coefficients.length) (hs : count ≤ scratch.length) :
    AdaptiveLowpan.db4Inverse coefficients count levels scratch ≠ .error .fault := by
  rcases validateTransform_ends count levels scratch.length with hvalid | hvalid
  · have hgeometry := (validateTransform_eq_ok_iff hs).mp hvalid
    obtain ⟨decoded, hok, -⟩ := db4Inverse_total coefficients scratch hgeometry hc hs
    rw [hok]
    exact nofun
  · rw [AdaptiveLowpan.db4Inverse, hvalid, fail_bind]
    exact fail_ne_fault

/-- How a call ends that stays inside its objects: an error leaves the sample count and the
metadata as they were. -/
structure EndsSafely (out : DecodeTarget F D) (result : Outcome Unit × DecodeTarget F D) :
    Prop where
  no_fault : result.1 ≠ .error .fault
  sampleCount : result.1 ≠ .ok () → result.2.sampleCount = out.sampleCount
  metadata : result.1 ≠ .ok () → result.2.metadata = out.metadata

theorem codecDecode_endsSafely (input : Bytes) {sampleCapacity : ℕ} {out : DecodeTarget F D}
    (hroom : min sampleCapacity maxWindow ≤ out.samples.length) :
    EndsSafely out (codecDecode input sampleCapacity out) := by
  obtain ⟨hfault, hkept, hcount⟩ := codecUnpack_ne_fault input hroom
  rw [codecDecode]
  generalize codecUnpack input sampleCapacity out.samples = r at hfault hkept hcount ⊢
  obtain ⟨result, samples⟩ := r
  cases result with
  | error e =>
    refine ⟨?_, fun _ => rfl, fun _ => rfl⟩
    intro heq
    cases heq
    exact hfault rfl
  | ok h =>
    obtain ⟨hmax, hle⟩ := hcount h rfl
    have hinverse := db4Inverse_ne_fault samples (List.replicate maxWindow (zeroFloat : F))
      h.levels.toNat (hle.trans_eq hkept.symm) (le_length_scratch hmax)
    simp only [db4Inverse_eq]
    cases hdecoded : AdaptiveLowpan.db4Inverse samples h.count h.levels.toNat
        (List.replicate maxWindow zeroFloat) with
    | error e =>
      rw [hdecoded] at hinverse
      refine ⟨?_, fun _ => rfl, fun _ => rfl⟩
      intro heq
      cases heq
      exact hinverse rfl
    | ok decoded => exact ⟨nofun, fun hok => absurd rfl hok, fun hok => absurd rfl hok⟩

/-- On any bytes and for any capacity the decoder, with its shifts checked, stays inside the
input, its scratch array and the first `min sampleCapacity maxWindow` samples: a buffer of
that size is enough for it. Over a buffer of the announced size it is the decoder of the
model. -/
theorem codecDecode_safe (input : Bytes) (sampleCapacity : ℕ)
    (window : Vector F (min sampleCapacity maxWindow)) (out : DecodeTarget F D) :
    EndsSafely { out with samples := window.toList }
      (codecDecode input sampleCapacity { out with samples := window.toList }) ∧
    EndsSafely out (AdaptiveLowpan.codecDecode input out) ∧
    codecDecode input out.samples.length out = AdaptiveLowpan.codecDecode input out := by
  have hwindow : min sampleCapacity maxWindow ≤ window.toList.length := window.length_toList.ge
  refine ⟨codecDecode_endsSafely input hwindow, ?_, codecDecode_eq input out⟩
  rw [← codecDecode_eq]
  exact codecDecode_endsSafely input (Nat.min_le_left _ _)

end AdaptiveLowpan.CodecSafety
