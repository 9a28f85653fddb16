import AdaptiveLowpan.Aad
import AdaptiveLowpan.CoapGrammar

/-! # What the associated data binds

The sixteen bytes determine the header fields, the first four token bytes and the
lower half of the content format, and nothing else of a block. -/

namespace AdaptiveLowpan
open ByteWords CheckedMemory CoapMessage

/-! ## Words of four bytes -/

theorem writeU32Be_eq (value : UInt32) : writeU32Be value = wordBytes 4 value.toNat := by
  have hlow : value.toUInt8 = UInt8.ofNat value.toNat := rfl
  simp only [wordBytes, Nat.div_div_eq_div_mul, List.nil_append, List.cons_append]
  exact congrArg₂ _ (toUInt8_shiftRight value (k := 24) (by decide))
    (congrArg₂ _ (toUInt8_shiftRight value (k := 16) (by decide))
      (congrArg₂ _ (toUInt8_shiftRight value (k := 8) (by decide)) (congrArg₂ _ hlow rfl)))

theorem writeU32Be_inj {v w : UInt32} (h : writeU32Be v = writeU32Be w) : v = w := by
  rw [writeU32Be_eq, writeU32Be_eq] at h
  exact UInt32.toNat_inj.mp (wordBytes_inj v.toNat_lt w.toNat_lt h)

/-! ## The fields -/

/-- The fields that the associated data is meant to bind. -/
structure SameBinding (a b : CoapBlock) : Prop where
  type : a.type = b.type
  code : a.code = b.code
  blockNumber : a.blockNumber = b.blockNumber
  more : a.more = b.more
  szx : a.szx = b.szx
  token : a.token = b.token
  contentFormat : a.contentFormat = b.contentFormat

/-- The part of these fields that has a place in the sixteen bytes: four bytes for the
token and two for the content format. -/
structure SameAadFields (a b : CoapBlock) : Prop where
  type : a.type = b.type
  code : a.code = b.code
  blockNumber : a.blockNumber = b.blockNumber
  more : a.more = b.more
  szx : a.szx = b.szx
  tokenLength : a.token.length = b.token.length
  tokenHead : a.token.take 4 = b.token.take 4
  contentFormatLow : a.contentFormat.toNat % 65536 = b.contentFormat.toNat % 65536

theorem aadToken_eq (token : Bytes) :
    aadToken token = token.take 4 ++ List.replicate (4 - token.length) 0 := by
  by_cases h : token.length < 4
  · have hall : token.take 4 = token := List.take_of_length_le (by omega)
    simp only [aadToken, if_pos h, List.take_length, hall]
  · have hzero : 4 - token.length = 0 := by omega
    simp only [aadToken, if_neg h, hzero, Nat.sub_self]

theorem aadToken_eq_iff {s t : Bytes} (hlen : s.length = t.length) :
    aadToken s = aadToken t ↔ s.take 4 = t.take 4 := by
  rw [aadToken_eq, aadToken_eq, hlen, List.append_left_inj]

theorem lowBytes_eq_iff (v w : UInt32) :
    ((v >>> 8).toUInt8 = (w >>> 8).toUInt8 ∧ v.toUInt8 = w.toUInt8) ↔
      v.toNat % 65536 = w.toNat % 65536 := by
  have hhigh (x : UInt32) : (x >>> 8).toUInt8.toNat = x.toNat / 256 % 256 := by
    rw [UInt32.toNat_toUInt8, UInt32.toNat_shiftRight, Nat.shiftRight_eq_div_pow]
    rfl
  have hlow (x : UInt32) : x.toUInt8.toNat = x.toNat % 256 := UInt32.toNat_toUInt8 x
  rw [← UInt8.toNat_inj, ← UInt8.toNat_inj, hhigh, hhigh, hlow, hlow]
  omega

theorem pipelineBuildAad_eq_iff {a b : CoapBlock} (ha : a.token.length ≤ 8)
    (hb : b.token.length ≤ 8) : pipelineBuildAad a = pipelineBuildAad b ↔ SameAadFields a b := by
  have hlength : UInt8.ofNat a.token.length = UInt8.ofNat b.token.length ↔
      a.token.length = b.token.length := by
    rw [← UInt8.toNat_inj, UInt8.toNat_ofNat', UInt8.toNat_ofNat']
    omega
  constructor
  · intro h
    unfold pipelineBuildAad at h
    obtain ⟨h, hformat⟩ := List.append_inj h (by simp)
    obtain ⟨h, htoken⟩ := List.append_inj h (by simp)
    obtain ⟨hhead, hnumber⟩ := List.append_inj h (by simp)
    simp only [List.cons.injEq, and_true, true_and] at hhead hformat
    obtain ⟨htype, hcode, hszx, hmore, hlen⟩ := hhead
    have hlen := hlength.mp hlen
    exact ⟨htype, hcode, writeU32Be_inj hnumber, hmore, hszx, hlen,
      (aadToken_eq_iff hlen).mp htoken, (lowBytes_eq_iff _ _).mp hformat⟩
  · intro h
    obtain ⟨hhigh, hlow⟩ := (lowBytes_eq_iff _ _).mpr h.contentFormatLow
    have htoken := (aadToken_eq_iff h.tokenLength).mpr h.tokenHead
    unfold pipelineBuildAad
    rw [h.type, h.code, h.szx, h.more, h.tokenLength, h.blockNumber, htoken, hhigh, hlow]

theorem token_length_le_of_parse {packet : Bytes} {block : CoapBlock}
    (h : coapParseBlock1 packet = .ok block) : block.token.length ≤ 8 := by
  obtain ⟨m, -, hm, rfl⟩ := (coapParseBlock1_eq_ok_iff _ _).mp h
  exact hm.wellFormed.token_le

/-- Equal associated data means that the packets agree in everything that has a place
in it: the whole token where it has at most four bytes, and the whole content format
where both are below 65536. -/
theorem pipelineBuildAad_binds (packet packet' : Bytes) (block block' : CoapBlock)
    (h : coapParseBlock1 packet = .ok block) (h' : coapParseBlock1 packet' = .ok block')
    (haad : pipelineBuildAad block = pipelineBuildAad block') :
    SameAadFields block block' ∧ (block.token.length ≤ 4 → block.token = block'.token) ∧
      (block.contentFormat < 65536 → block'.contentFormat < 65536 →
        block.contentFormat = block'.contentFormat) := by
  have hsame := (pipelineBuildAad_eq_iff (token_length_le_of_parse h)
    (token_length_le_of_parse h')).mp haad
  refine ⟨hsame, ?_, ?_⟩
  · intro hle
    have hlen := hsame.tokenLength
    have hhead := hsame.tokenHead
    rwa [List.take_of_length_le hle, List.take_of_length_le (by omega)] at hhead
  · intro hlt hlt'
    have hlow := hsame.contentFormatLow
    have hlt : block.contentFormat.toNat < 65536 := UInt32.lt_iff_toNat_lt.mp hlt
    have hlt' : block'.contentFormat.toNat < 65536 := UInt32.lt_iff_toNat_lt.mp hlt'
    apply UInt32.toNat_inj.mp
    omega

/-- Two packets of the pipeline's own shape, with different message ids. -/
theorem pipelineBuildAad_binds_messageIds :
    SameAadFields ⟨0, 2, 1, [0, 0, 0, 7], 0, 0, 0, 42, 0, []⟩
        ⟨0, 2, 2, [0, 0, 0, 7], 0, 0, 0, 42, 0, []⟩ ∧
      (4 ≤ 4 → ([0, 0, 0, 7] : Bytes) = [0, 0, 0, 7]) ∧
      ((42 : UInt32) < 65536 → (42 : UInt32) < 65536 → (42 : UInt32) = 42) :=
  pipelineBuildAad_binds [0x44, 2, 0, 1, 0, 0, 0, 7, 0xc1, 42, 0xd0, 2]
    [0x44, 2, 0, 2, 0, 0, 0, 7, 0xc1, 42, 0xd0, 2] _ _ rfl rfl rfl

/-- Two packets with one associated data whose tokens differ behind the fourth byte
and whose content formats are 42 and 65578. -/
theorem pipelineBuildAad_not_binding :
    ¬∀ (packet packet' : Bytes) (block block' : CoapBlock),
      coapParseBlock1 packet = .ok block → coapParseBlock1 packet' = .ok block' →
      pipelineBuildAad block = pipelineBuildAad block' → SameBinding block block' := by
  intro h
  have hsame := h [0x48, 2, 0, 1, 0, 0, 0, 7, 0, 0, 0, 1, 0xc1, 42, 0xd0, 2]
    [0x48, 2, 0, 1, 0, 0, 0, 7, 0, 0, 0, 2, 0xc3, 1, 0, 42, 0xd0, 2] _ _ rfl rfl (by decide)
  exact absurd hsame.token (by decide)

end AdaptiveLowpan
