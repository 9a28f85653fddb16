import AdaptiveLowpan.CodecRoundTrip
import AdaptiveLowpan.CodecBursts
import AdaptiveLowpan.SparseVectors

/-! # The pair streams that the decoder accepts

The decoder's loop accepts ascending indices below the sample count and stores the
product of each value with the scale. It does not look at the values: zeros and values
beyond the recorded width are stored like others. -/

namespace AdaptiveLowpan
open ByteWords CheckedMemory CDouble CFloat SparseVectors

def pairsOf : Bytes → List (UInt16 × UInt16)
  | b0 :: b1 :: b2 :: b3 :: rest =>
    (b0.toUInt16 ||| (b1.toUInt16 <<< 8), b2.toUInt16 ||| (b3.toUInt16 <<< 8)) :: pairsOf rest
  | _ => []

def pairBytes (pairs : List (UInt16 × UInt16)) : Bytes :=
  pairs.flatMap fun p => writeU16 p.1 ++ writeU16 p.2

structure Ordered (count : ℕ) (pairs : List (UInt16 × UInt16)) : Prop where
  ascending : pairs.Pairwise (·.1 < ·.1)
  below : ∀ p ∈ pairs, p.1.toNat < count

structure Canonical (count : ℕ) (quantBits : UInt32) (pairs : List (UInt16 × UInt16)) : Prop
    extends Ordered count pairs where
  nonzero : ∀ p ∈ pairs, toInt16 p.2 ≠ 0
  width : ∀ p ∈ pairs, |toInt16 p.2| ≤ 2 ^ (quantBits.toNat - 1) - 1

variable {F D : Type} [CDouble D] [CFloat F D]

def entriesOf (scale : F) (pairs : List (UInt16 × UInt16)) : List (ℕ × F) :=
  pairs.map fun p => (p.1.toNat, mulInt (toInt16 p.2) scale)

/-! ## Reading the stream -/

private theorem ofNat_eq {b : UInt8} {n : ℕ} (h : n % 256 = b.toNat) : UInt8.ofNat n = b := by
  apply UInt8.toNat_inj.mp
  rw [UInt8.toNat_ofNat']
  exact h

theorem writeU16_bytes (b0 b1 : UInt8) :
    writeU16 (b0.toUInt16 ||| (b1.toUInt16 <<< 8)) = [b0, b1] := by
  have h0 := b0.toNat_lt
  have h1 := b1.toNat_lt
  rw [writeU16_eq, toNat_join16, ofNat_eq (b := b0) (by omega), ofNat_eq (b := b1) (by omega)]

theorem writeU32_bytes (b0 b1 b2 b3 : UInt8) :
    writeU32 (b0.toUInt32 ||| (b1.toUInt32 <<< 8) ||| (b2.toUInt32 <<< 16) |||
      (b3.toUInt32 <<< 24)) = [b0, b1, b2, b3] := by
  have h0 := b0.toNat_lt
  have h1 := b1.toNat_lt
  have h2 := b2.toNat_lt
  have h3 := b3.toNat_lt
  rw [writeU32_eq, toNat_join32, ofNat_eq (b := b0) (by omega), ofNat_eq (b := b1) (by omega),
    ofNat_eq (b := b2) (by omega), ofNat_eq (b := b3) (by omega)]

theorem exists_pair {stream : Bytes} (h : 4 ≤ stream.length) :
    ∃ b0 b1 b2 b3 rest, stream = b0 :: b1 :: b2 :: b3 :: rest := by
  rcases stream with _ | ⟨b0, _ | ⟨b1, _ | ⟨b2, _ | ⟨b3, rest⟩⟩⟩⟩
  · cases h
  · exact absurd h (by simp)
  · exact absurd h (by simp)
  · exact absurd h (by simp)
  · exact ⟨b0, b1, b2, b3, rest, rfl⟩

theorem pairBytes_pairsOf (pairs : ℕ) {stream : Bytes} (h : stream.length = pairs * 4) :
    pairBytes (pairsOf stream) = stream ∧ (pairsOf stream).length = pairs := by
  induction pairs generalizing stream with
  | zero =>
    obtain rfl := List.eq_nil_of_length_eq_zero (h.trans (Nat.zero_mul 4))
    exact ⟨rfl, rfl⟩
  | succ pairs ih =>
    obtain ⟨b0, b1, b2, b3, rest, rfl⟩ := exists_pair (show 4 ≤ stream.length by omega)
    simp only [List.length_cons] at h
    obtain ⟨hbytes, hlength⟩ := ih (show rest.length = pairs * 4 by omega)
    rw [pairsOf]
    constructor
    · rw [pairBytes, List.flatMap_cons, writeU16_bytes, writeU16_bytes]
      exact congrArg (b0 :: b1 :: b2 :: b3 :: ·) hbytes
    · rw [List.length_cons, hlength]

/-- The loop that comes to its end has stored the entries of ascending pairs. -/
theorem storeCoefficients_eq_ok {input stream : Bytes} {scale : F} {count remaining i : ℕ}
    {previous : Option UInt16} {samples samples' : List F}
    (hdrop : input.drop (codecHeaderBytes + i * 4) = stream) (hlength : stream.length = remaining * 4)
    (h : storeCoefficients input scale count remaining i previous samples = (.ok (), samples')) :
    Ordered count (pairsOf stream) ∧
      (∀ p ∈ pairsOf stream, ∀ q ∈ previous, q < p.1) ∧
      samples' = store samples (entriesOf scale (pairsOf stream)) := by
  induction remaining generalizing stream i previous samples with
  | zero =>
    obtain rfl := List.eq_nil_of_length_eq_zero (hlength.trans (Nat.zero_mul 4))
    cases h
    exact ⟨⟨List.Pairwise.nil, nofun⟩, nofun, rfl⟩
  | succ remaining ih =>
    obtain ⟨b0, b1, b2, b3, rest, rfl⟩ := exists_pair (show 4 ≤ stream.length by omega)
    simp only [List.length_cons] at hlength
    have h0 := drop_succ_of_drop hdrop
    have h1 := drop_succ_of_drop h0
    have h2 := drop_succ_of_drop h1
    have h3 := drop_succ_of_drop h2
    have hindex : readU16 input (codecHeaderBytes + i * 4) =
        .ok (b0.toUInt16 ||| (b1.toUInt16 <<< 8)) := by
      rw [readU16, readAt_of_drop hdrop, ok_bind, readAt_of_drop h0]
      rfl
    have hvalue : readU16 input (codecHeaderBytes + i * 4 + 2) =
        .ok (b2.toUInt16 ||| (b3.toUInt16 <<< 8)) := by
      rw [readU16, readAt_of_drop h1, ok_bind, readAt_of_drop h2]
      rfl
    rw [storeCoefficients, hindex, ok_bind, hvalue, ok_bind] at h
    simp only [pure, Except.pure] at h
    rw [pairsOf]
    generalize b0.toUInt16 ||| (b1.toUInt16 <<< 8) = index at h ⊢
    generalize b2.toUInt16 ||| (b3.toUInt16 <<< 8) = value at h ⊢
    split at h
    · simp at h
    rename_i hfresh
    rw [not_or] at hfresh
    split at h
    · cases h
    rename_i written hwrite
    have hroom : index.toNat < samples.length := by
      by_contra hout
      rw [writeAt, if_neg hout] at hwrite
      cases hwrite
    rw [writeAt_of_lt _ hroom] at hwrite
    cases hwrite
    have hrest : input.drop (codecHeaderBytes + (i + 1) * 4) = rest := by
      rw [← h3]
      congr 1
      omega
    obtain ⟨hordered, hprevious, hstored⟩ := ih hrest (by omega) h
    have hnext : ∀ p ∈ pairsOf rest, index < p.1 := fun p hp => hprevious p hp index rfl
    refine ⟨⟨List.pairwise_cons.mpr ⟨hnext, hordered.ascending⟩, ?_⟩, ?_, hstored⟩
    · rintro p hp
      rcases List.mem_cons.mp hp with rfl | hp
      · exact Nat.not_le.mp hfresh.1
      · exact hordered.below p hp
    · intro p hp q hq
      have hlast : q < index := by
        by_contra hle
        exact hfresh.2 ⟨q, hq, UInt16.not_lt.mp hle⟩
      rcases List.mem_cons.mp hp with rfl | hp
      · exact hlast
      · exact UInt16.lt_trans hlast (hnext p hp)

theorem length_streamOf {input : Bytes} {sampleCapacity : ℕ} {h : CodecHeader F}
    (hread : readHeader input sampleCapacity = .ok h) :
    (streamOf input).length = h.nonzero * 4 := by
  obtain ⟨-, haccepted, -⟩ := readHeader_eq_ok_iff.mp hread
  have hlength := haccepted.inRange.length_eq
  rw [streamOf, List.length_drop]
  omega

/-- The coefficient vector that an input puts before the inverse transform. -/
def coefficientVector (input : Bytes) (out : DecodeTarget F D) : List F :=
  (codecUnpack input out.samples).2.take (u16At (headerOf input) 8).toNat

theorem ascending_entriesOf {count : ℕ} {pairs : List (UInt16 × UInt16)} (scale : F)
    (h : Ordered count pairs) : Ascending count (entriesOf scale pairs) := by
  constructor
  · rw [entriesOf, List.pairwise_map]
    exact h.ascending.imp fun hlt => UInt16.lt_iff_toNat_lt.mp hlt
  · intro entry hentry
    obtain ⟨p, hp, rfl⟩ := List.mem_map.mp hentry
    exact h.below p hp

theorem accepted_parts {input : Bytes} {out : DecodeTarget F D}
    (haccepted : (codecDecode input out).1 = .ok ()) :
    ∃ h : CodecHeader F, readHeader input out.samples.length = .ok h ∧
      Ordered h.count (pairsOf (streamOf input)) ∧
      coefficientVector input out =
        store (List.replicate h.count zeroFloat) (entriesOf h.scale (pairsOf (streamOf input))) := by
  obtain ⟨h, hread⟩ := readHeader_of_decoded haccepted
  have hstream := length_streamOf hread
  obtain ⟨-, hheader, -⟩ := readHeader_eq_ok_iff.mp hread
  have hcount : h.count = (u16At (headerOf input) 8).toNat := by
    rw [hheader.fields]
    rfl
  have hclear : (List.replicate h.count (zeroFloat : F)).length ≤ out.samples.length := by
    rw [List.length_replicate]
    exact hheader.inRange.room
  rw [codecDecode] at haccepted
  rw [coefficientVector, ← hcount]
  have hunpack := codecUnpack.eq_1 input out.samples
  rw [hread] at hunpack
  simp only at hunpack
  rw [overwrite_of_le hclear, List.length_replicate] at hunpack
  simp only at hunpack
  rcases hstore : storeCoefficients input h.scale h.count h.nonzero 0 none
    (List.replicate h.count zeroFloat ++ out.samples.drop h.count) with ⟨result, stored⟩
  rw [hstore] at hunpack
  cases result with
  | error e =>
    rw [hunpack] at haccepted
    cases haccepted
  | ok u =>
    have hdrop : input.drop (codecHeaderBytes + 0 * 4) = streamOf input := rfl
    obtain ⟨hordered, -, rfl⟩ := storeCoefficients_eq_ok hdrop hstream hstore
    refine ⟨h, hread, hordered, ?_⟩
    have hascending := ascending_entriesOf h.scale hordered
    rw [hunpack]
    simp only
    rw [store_append fun e he => (hascending.below e he).trans_eq (List.length_replicate).symm]
    exact List.take_left' ((length_store _ _).trans List.length_replicate)

/-! ## One input for a coefficient vector -/

/-- The headers agree but for the number of pairs and the CRC. -/
def SameHeader (input input' : Bytes) : Prop :=
  ∀ k < 24, k ≠ 10 → k ≠ 11 → input[k]? = input'[k]?

/-- At no index do the two store different values that become the same coefficient. -/
def Distinguishes (scale : F) (pairs pairs' : List (UInt16 × UInt16)) : Prop :=
  ∀ p ∈ pairs, ∀ q ∈ pairs', p.1 = q.1 → mulInt (toInt16 p.2) scale = mulInt (toInt16 q.2) scale →
    p.2 = q.2

theorem byteAt_headerOf (input : Bytes) {k : ℕ} (h : k < codecHeaderBytes) :
    byteAt (headerOf input) k = (input[k]?).getD 0 := by
  rw [byteAt, headerOf, List.getD_eq_getElem?_getD, List.getElem?_take_of_lt h]

theorem SameHeader.byteAt_eq {input input' : Bytes} (h : SameHeader input input') {k : ℕ}
    (hk : k < 24) (h10 : k ≠ 10) (h11 : k ≠ 11) :
    byteAt (headerOf input) k = byteAt (headerOf input') k := by
  rw [byteAt_headerOf _ (hk.trans (by decide)), byteAt_headerOf _ (hk.trans (by decide)),
    h k hk h10 h11]

/-- The pairs of two streams of one vector, but for those with a zero coefficient. -/
theorem mem_pairs_of_vector {count : ℕ} {scale : F} {pairs pairs' : List (UInt16 × UInt16)}
    (hordered : Ordered count pairs) (hordered' : Ordered count pairs')
    (hvector : store (List.replicate count (zeroFloat : F)) (entriesOf scale pairs) =
      store (List.replicate count zeroFloat) (entriesOf scale pairs'))
    (hdistinct : Distinguishes scale pairs pairs') {p : UInt16 × UInt16} (hp : p ∈ pairs)
    (hvalue : mulInt (toInt16 p.2) scale ≠ zeroFloat) : p ∈ pairs' := by
  have hentry : (p.1.toNat, mulInt (toInt16 p.2) scale) ∈ entriesOf scale pairs :=
    List.mem_map.mpr ⟨p, hp, rfl⟩
  have hentry' := mem_of_store_eq (ascending_entriesOf scale hordered)
    (ascending_entriesOf scale hordered') hvector hentry hvalue
  obtain ⟨q, hq, heq⟩ := List.mem_map.mp hentry'
  obtain ⟨hindex, hcoefficient⟩ := Prod.ext_iff.mp heq
  have hplace : p.1 = q.1 := (UInt16.toNat_inj.mp hindex).symm
  have hsame := hdistinct p hp q hq hplace hcoefficient.symm
  rwa [Prod.ext hplace hsame]

theorem input_eq_of_parts {input input' : Bytes} {sampleCapacity sampleCapacity' : ℕ}
    {h h' : CodecHeader F} (hread : readHeader input sampleCapacity = .ok h)
    (hread' : readHeader input' sampleCapacity' = .ok h') (hheader : SameHeader input input')
    (hstream : streamOf input = streamOf input') : input = input' := by
  have hcount := length_streamOf hread
  have hcount' := length_streamOf hread'
  obtain ⟨hlength, haccepted, hcrc⟩ := readHeader_eq_ok_iff.mp hread
  obtain ⟨hlength', haccepted', hcrc'⟩ := readHeader_eq_ok_iff.mp hread'
  rw [hstream] at hcount hcrc
  have hnonzero : u16At (headerOf input) 10 = u16At (headerOf input') 10 := by
    apply UInt16.toNat_inj.mp
    have hn : h.nonzero = (u16At (headerOf input) 10).toNat := by
      rw [haccepted.fields]
      rfl
    have hn' : h'.nonzero = (u16At (headerOf input') 10).toNat := by
      rw [haccepted'.fields]
      rfl
    omega
  have hpair := congrArg writeU16 hnonzero
  have hword := congrArg writeU32 (hcrc.symm.trans hcrc')
  rw [u16At, u16At, writeU16_bytes, writeU16_bytes] at hpair
  rw [u32At, u32At, writeU32_bytes, writeU32_bytes] at hword
  simp only [List.cons.injEq, and_true] at hpair hword
  have hbytes : ∀ k < codecHeaderBytes, byteAt (headerOf input) k = byteAt (headerOf input') k := by
    intro k hk
    change k < 28 at hk
    by_cases hlow : k < 24
    · by_cases h10 : k = 10
      · exact h10 ▸ hpair.1
      by_cases h11 : k = 11
      · exact h11 ▸ hpair.2
      exact hheader.byteAt_eq hlow h10 h11
    · have hcases : k = 24 ∨ k = 25 ∨ k = 26 ∨ k = 27 := by omega
      rcases hcases with rfl | rfl | rfl | rfl
      · exact hword.1
      · exact hword.2.1
      · exact hword.2.2.1
      · exact hword.2.2.2
  have hheaders : headerOf input = headerOf input' := by
    apply List.ext_getElem (by simp only [headerOf, List.length_take]; omega)
    intro k hk hk'
    have hlt : k < codecHeaderBytes := by
      simp only [headerOf, List.length_take] at hk
      omega
    have hbyte := hbytes k hlt
    rwa [byteAt, byteAt, List.getD_eq_getElem _ _ hk, List.getD_eq_getElem _ _ hk'] at hbyte
  rw [← List.take_append_drop codecHeaderBytes input, ← List.take_append_drop codecHeaderBytes input']
  exact congrArg₂ (· ++ ·) hheaders hstream

/-- The pairs of an accepted input are ordered. Another accepted input with the same header
and the same coefficient vector, and no other value in the place of one with the same
coefficient, has the same pairs but for those with a zero coefficient; where none of the two
stores one, the inputs are the same. -/
theorem codecDecode_accepts_ordered (input : Bytes) (out : DecodeTarget F D)
    (haccepted : (codecDecode input out).1 = .ok ()) :
    ∃ h : CodecHeader F, readHeader input out.samples.length = .ok h ∧
      Ordered h.count (pairsOf (streamOf input)) ∧
      ∀ (input' : Bytes) (out' : DecodeTarget F D), (codecDecode input' out').1 = .ok () →
        SameHeader input input' → coefficientVector input out = coefficientVector input' out' →
        Distinguishes h.scale (pairsOf (streamOf input)) (pairsOf (streamOf input')) →
        (∀ p, mulInt (toInt16 p.2) h.scale ≠ zeroFloat →
          (p ∈ pairsOf (streamOf input) ↔ p ∈ pairsOf (streamOf input'))) ∧
        ((∀ p ∈ pairsOf (streamOf input) ++ pairsOf (streamOf input'),
          mulInt (toInt16 p.2) h.scale ≠ zeroFloat) → input = input') := by
  obtain ⟨h, hread, hordered, hvector⟩ := accepted_parts haccepted
  refine ⟨h, hread, hordered, ?_⟩
  intro input' out' haccepted' hheader hsame hdistinct
  obtain ⟨h', hread', hordered', hvector'⟩ := accepted_parts haccepted'
  obtain ⟨-, hfields, -⟩ := readHeader_eq_ok_iff.mp hread
  obtain ⟨-, hfields', -⟩ := readHeader_eq_ok_iff.mp hread'
  have hcount : h'.count = h.count := by
    rw [hfields.fields, hfields'.fields]
    simp only [headerFields, u16At]
    rw [hheader.byteAt_eq (by decide) (by decide) (by decide),
      hheader.byteAt_eq (by decide) (by decide) (by decide)]
  have hscale : h'.scale = h.scale := by
    rw [hfields.fields, hfields'.fields]
    simp only [headerFields, u32At]
    rw [hheader.byteAt_eq (by decide) (by decide) (by decide),
      hheader.byteAt_eq (by decide) (by decide) (by decide),
      hheader.byteAt_eq (by decide) (by decide) (by decide),
      hheader.byteAt_eq (by decide) (by decide) (by decide)]
  rw [hcount] at hordered'
  rw [hvector, hvector', hcount, hscale] at hsame
  have hmem : ∀ p, mulInt (toInt16 p.2) h.scale ≠ zeroFloat →
      (p ∈ pairsOf (streamOf input) ↔ p ∈ pairsOf (streamOf input')) := by
    intro p hvalue
    constructor
    · exact fun hp => mem_pairs_of_vector hordered hordered' hsame hdistinct hp hvalue
    · refine fun hp => mem_pairs_of_vector hordered' hordered hsame.symm ?_ hp hvalue
      intro q' hq' q hq hplace hcoefficient
      exact (hdistinct q hq q' hq' hplace.symm hcoefficient.symm).symm
  refine ⟨hmem, ?_⟩
  intro hvalues
  have hpairs : pairsOf (streamOf input) = pairsOf (streamOf input') := by
    refine List.Pairwise.eq_of_mem_iff hordered.ascending hordered'.ascending ?_
    intro p
    constructor
    · exact fun hp => (hmem p (hvalues p (List.mem_append_left _ hp))).mp hp
    · exact fun hp => (hmem p (hvalues p (List.mem_append_right _ hp))).mpr hp
  refine input_eq_of_parts hread hread' hheader ?_
  rw [← (pairBytes_pairsOf h.nonzero (length_streamOf hread)).1, hpairs,
    (pairBytes_pairsOf h'.nonzero (length_streamOf hread')).1]

/-- A representation of eight samples under a scale with these bits. -/
def eightSamples (quantBits : UInt8) (scale : UInt32) (pairs : List (UInt16 × UInt16)) : Bytes :=
  codecMagic ++ [codecVersion, 1, quantBits, 1] ++ writeU16 8 ++
    writeU16 (UInt16.ofNat pairs.length) ++ writeU32 7 ++ writeU32 scale ++ writeU32 0 ++
    writeU32 (crc32Update 0 (pairBytes pairs)) ++ pairBytes pairs

def eightTarget : DecodeTarget Single ℚ := ⟨List.replicate 8 (Single.ofRat 0), 0, none⟩

theorem codecDecode_accepts_ordered_eightSamples :
    ∃ h : CodecHeader Single,
      readHeader (eightSamples 12 0x3f800000 [(2, 5), (6, 9)]) eightTarget.samples.length = .ok h ∧
      Ordered h.count (pairsOf (streamOf (eightSamples 12 0x3f800000 [(2, 5), (6, 9)]))) ∧
      ∀ (input' : Bytes) (out' : DecodeTarget Single ℚ), (codecDecode input' out').1 = .ok () →
        SameHeader (eightSamples 12 0x3f800000 [(2, 5), (6, 9)]) input' →
        coefficientVector (eightSamples 12 0x3f800000 [(2, 5), (6, 9)]) eightTarget =
          coefficientVector input' out' →
        Distinguishes h.scale (pairsOf (streamOf (eightSamples 12 0x3f800000 [(2, 5), (6, 9)])))
          (pairsOf (streamOf input')) →
        (∀ p, mulInt (toInt16 p.2) h.scale ≠ zeroFloat →
          (p ∈ pairsOf (streamOf (eightSamples 12 0x3f800000 [(2, 5), (6, 9)])) ↔
            p ∈ pairsOf (streamOf input'))) ∧
        ((∀ p ∈ pairsOf (streamOf (eightSamples 12 0x3f800000 [(2, 5), (6, 9)])) ++
            pairsOf (streamOf input'), mulInt (toInt16 p.2) h.scale ≠ zeroFloat) →
          eightSamples 12 0x3f800000 [(2, 5), (6, 9)] = input') :=
  codecDecode_accepts_ordered (eightSamples 12 0x3f800000 [(2, 5), (6, 9)]) eightTarget
    (by decide +kernel)

instance (input input' : Bytes) : Decidable (SameHeader input input') := by
  unfold SameHeader
  infer_instance

/-- Accepted are a stored zero, which leaves the vector as it is without the pair, a value of
three bits under a width of two, and a value whose product with the largest scale is infinite
as that of another one is. -/
theorem uncanonical_accepted :
    (codecDecode (eightSamples 12 0x3f800000 []) eightTarget).1 = .ok () ∧
    (codecDecode (eightSamples 12 0x3f800000 [(0, 0)]) eightTarget).1 = .ok () ∧
    ¬Canonical 8 12 (pairsOf (streamOf (eightSamples 12 0x3f800000 [(0, 0)]))) ∧
    SameHeader (eightSamples 12 0x3f800000 []) (eightSamples 12 0x3f800000 [(0, 0)]) ∧
    coefficientVector (eightSamples 12 0x3f800000 []) eightTarget =
      coefficientVector (eightSamples 12 0x3f800000 [(0, 0)]) eightTarget ∧
    eightSamples 12 0x3f800000 [] ≠ eightSamples 12 0x3f800000 [(0, 0)] ∧
    (codecDecode (eightSamples 2 0x3f800000 [(0, 2)]) eightTarget).1 = .ok () ∧
    ¬Canonical 8 2 (pairsOf (streamOf (eightSamples 2 0x3f800000 [(0, 2)]))) ∧
    (codecDecode (eightSamples 12 0x7f7fffff [(0, 2)]) eightTarget).1 = .ok () ∧
    (codecDecode (eightSamples 12 0x7f7fffff [(0, 3)]) eightTarget).1 = .ok () ∧
    Canonical 8 12 (pairsOf (streamOf (eightSamples 12 0x7f7fffff [(0, 2)]))) ∧
    Canonical 8 12 (pairsOf (streamOf (eightSamples 12 0x7f7fffff [(0, 3)]))) ∧
    SameHeader (eightSamples 12 0x7f7fffff [(0, 2)]) (eightSamples 12 0x7f7fffff [(0, 3)]) ∧
    coefficientVector (eightSamples 12 0x7f7fffff [(0, 2)]) eightTarget =
      coefficientVector (eightSamples 12 0x7f7fffff [(0, 3)]) eightTarget ∧
    eightSamples 12 0x7f7fffff [(0, 2)] ≠ eightSamples 12 0x7f7fffff [(0, 3)] := by
  have hcanonical {v : UInt16} (h0 : toInt16 v ≠ 0) (h : |toInt16 v| ≤ 2047) :
      Canonical 8 12 [(0, v)] := by
    refine ⟨⟨List.pairwise_singleton _ _, ?_⟩, ?_, ?_⟩
    · simp
    · simpa using h0
    · simpa using h
  refine ⟨by decide +kernel, by decide +kernel, ?_, by decide +kernel, by decide +kernel,
    by decide +kernel, by decide +kernel, ?_, by decide +kernel, by decide +kernel, ?_, ?_,
    by decide +kernel, by decide +kernel, by decide +kernel⟩
  · intro h
    exact h.nonzero (0, 0) (by decide) rfl
  · intro h
    exact absurd (h.width (0, 2) (by decide)) (by decide)
  · exact hcanonical (v := 2) (by decide) (by decide)
  · exact hcanonical (v := 3) (by decide) (by decide)

end AdaptiveLowpan
