import AdaptiveLowpan.CoapSerialisation

/-! # Building an accepted packet again

The parser keeps the last Block1 option that it meets and takes four bytes for its
value, where the builder writes one option with at most three. An accepted packet can be
built again exactly when it has neither a second Block1 option nor one of four bytes. -/

namespace AdaptiveLowpan
open ByteWords CheckedMemory CoapMessage

def Message.block1Values (m : Message) : List Bytes :=
  ((numbered 0 m.options).filter (·.1 = 27)).map (·.2)

/-- The message that an accepted packet is the bytes of. -/
structure Denotes (packet : Bytes) (m : Message) : Prop where
  bytes : packet = m.bytes
  wellFormed : m.WellFormed uintMax

/-- One Block1 option with a number of 20 bits, and the block is built and parsed back
under every path that has a form in options, wherever the request fits. -/
structure Rebuilds (m : Message) (block : CoapBlock) : Prop where
  option : ∃ value, Message.block1Values m = [value] ∧ value.length ≤ 3
  number_le : block.blockNumber ≤ 0xfffff
  rebuilt : ∀ path capacity, pathSegments path ≠ [] →
    (∀ segment ∈ pathSegments path, segment.length ≤ 65804) →
    (requestBytes block path).length ≤ capacity →
    ∃ packet, coapBuildBlock1 block path capacity = .ok packet ∧
      coapParseBlock1 packet = .ok block

/-- No second Block1 option, and none of four bytes. -/
structure PlainBlock1 (m : Message) : Prop where
  single : ¬2 ≤ (Message.block1Values m).length
  short : ∀ value ∈ Message.block1Values m, value.length ≠ 4

theorem mem_block1Values {m : Message} {value : Bytes} :
    value ∈ Message.block1Values m ↔ (27, value) ∈ numbered 0 m.options := by
  simp [Message.block1Values]

/-- The values of an accepted packet: at least one, none longer than four bytes. -/
theorem Block1Request.block1Values {m : Message} (h : Block1Request m) :
    Message.block1Values m ≠ [] ∧ ∀ value ∈ Message.block1Values m, value.length ≤ 4 := by
  constructor
  · obtain ⟨⟨_, value⟩, hmem, rfl⟩ := h.block1
    exact List.ne_nil_of_mem (mem_block1Values.mpr hmem)
  · intro value hvalue
    exact (h.admissible _ (mem_block1Values.mp hvalue)).1 (Or.inr (Or.inl rfl))

theorem plainBlock1_iff {m : Message} (h : Block1Request m) :
    PlainBlock1 m ↔ ∃ value, Message.block1Values m = [value] ∧ value.length ≤ 3 := by
  obtain ⟨hne, hlength⟩ := h.block1Values
  constructor
  · rintro ⟨hsingle, hshort⟩
    match hvalues : Message.block1Values m with
    | [] => exact absurd hvalues hne
    | [value] =>
      have hmem : value ∈ Message.block1Values m := by simp [hvalues]
      have h4 := hlength value hmem
      have hne4 := hshort value hmem
      exact ⟨value, rfl, by omega⟩
    | value :: value' :: values =>
      rw [hvalues] at hsingle
      exact absurd (by simp) hsingle
  · rintro ⟨value, hvalues, hlength3⟩
    refine ⟨by simp [hvalues], ?_⟩
    intro value' hvalue'
    rw [hvalues, List.mem_singleton] at hvalue'
    rw [hvalue']
    omega

theorem type_lt (first : UInt8) : (first >>> 4) &&& 0x03 < 4 := by
  rw [UInt8.lt_iff_toNat_lt, UInt8.toNat_and]
  exact Nat.lt_succ_of_le Nat.and_le_right

/-- The parsed block meets the builder's argument checks, but for the block number. -/
theorem buildable_blockOf {m : Message} (h : Block1Request m)
    (hnumber : (blockOf m).blockNumber ≤ 0xfffff) :
    Buildable (blockOf m) ∧ (blockOf m).type < 4 := by
  have hszx : lastValue 27 (numbered 0 m.options) % 8 ≤ 6 := by
    apply lastValue_of_forall (P := (· % 8 ≤ 6)) (by decide)
    intro o ho h27
    exact (h.admissible o ho).2 h27
  refine ⟨⟨h.wellFormed.token_le, ?_, hnumber⟩, type_lt m.first⟩
  rw [UInt8.le_iff_toNat_le]
  simp only [blockOf]
  rw [UInt8.toNat_ofNat']
  change _ ≤ 6
  omega

theorem received_of_more {block : CoapBlock} (h : block.more = 0 ∨ block.more = 1) :
    block.received = block := by
  cases block
  simp only [CoapBlock.received]
  rcases h with rfl | rfl <;> rfl

theorem blockNumber_le {m : Message} {value : Bytes} (hvalues : Message.block1Values m = [value])
    (hlength : value.length ≤ 3) : (blockOf m).blockNumber ≤ 0xfffff := by
  have hlt : lastValue 27 (numbered 0 m.options) < 256 ^ 3 := by
    apply lastValue_lt
    rintro ⟨_, v⟩ ho rfl
    have hmem := mem_block1Values.mpr ho
    rw [hvalues, List.mem_singleton] at hmem
    exact hmem ▸ hlength
  rw [UInt32.le_iff_toNat_le]
  simp only [blockOf]
  rw [UInt32.toNat_ofNat']
  change _ ≤ 1048575
  omega

theorem rebuilds_iff {m : Message} (h : Block1Request m)
    (hmore : (blockOf m).more = 0 ∨ (blockOf m).more = 1) :
    Rebuilds m (blockOf m) ↔ PlainBlock1 m := by
  constructor
  · intro hrebuilds
    exact (plainBlock1_iff h).mpr hrebuilds.option
  · intro hplain
    obtain ⟨value, hvalues, hlength⟩ := (plainBlock1_iff h).mp hplain
    have hnumber := blockNumber_le hvalues hlength
    obtain ⟨hb, htype⟩ := buildable_blockOf h hnumber
    refine ⟨⟨value, hvalues, hlength⟩, hnumber, ?_⟩
    intro path capacity hpath hlong hfits
    have hroom : 4 + (blockOf m).token.length ≤ (requestBytes (blockOf m) path).length := by
      simp only [requestBytes, List.length_append, List.length_cons, List.length_nil]
      omega
    have hbuild : coapBuildBlock1 (blockOf m) path capacity =
        .ok (requestBytes (blockOf m) path) := by
      rw [coapBuildBlock1_eq hb htype hpath hlong, if_neg (by omega), if_pos hfits]
    refine ⟨_, hbuild, ?_⟩
    rw [coapParseBlock1_of_build htype hbuild, received_of_more hmore]

/-- For every accepted packet: it has one Block1 option of at most three bytes and can be
built again if and only if it has no second Block1 option and none of four bytes. -/
theorem accepted_rebuilds_iff (packet : Bytes) (block : CoapBlock)
    (h : coapParseBlock1 packet = .ok block) :
    ∃ m : Message, Denotes packet m ∧ (∀ m', Denotes packet m' → m' = m) ∧
      (Rebuilds m block ↔ PlainBlock1 m) := by
  obtain ⟨m, hbytes, hrequest, rfl⟩ := (coapParseBlock1_eq_ok_iff packet block).mp h
  refine ⟨m, ⟨hbytes, hrequest.wellFormed⟩, ?_, rebuilds_iff hrequest (parsed_bounds h).2⟩
  rintro m' ⟨hbytes', hwell⟩
  exact Message.eq_of_bytes hwell hrequest.wellFormed (hbytes'.symm.trans hbytes)

def plainMessage : Message where
  first := 0x40
  code := 2
  idHigh := 0
  idLow := 0
  token := []
  options := [⟨.byte 14, .direct 1 (by decide), [0x02], rfl⟩]
  payload := [7]

theorem accepted_rebuilds_iff_plain :
    coapParseBlock1 plainMessage.bytes = .ok (blockOf plainMessage) ∧
      ∃ m : Message, Denotes plainMessage.bytes m ∧ (∀ m', Denotes plainMessage.bytes m' → m' = m) ∧
        (Rebuilds m (blockOf plainMessage) ↔ PlainBlock1 m) :=
  ⟨by decide +kernel, accepted_rebuilds_iff _ _ (by decide +kernel)⟩

/-- A Block1 option of four bytes, with block number 0x100000. -/
def wideMessage : Message where
  first := 0x40
  code := 2
  idHigh := 0
  idLow := 0
  token := []
  options := [⟨.byte 14, .direct 4 (by decide), [1, 0, 0, 0], rfl⟩]
  payload := []

/-- The packet `40 02 00 00 d4 0e 01 00 00 00` is accepted, with a Block1 value of four
bytes, and the builder refuses its block under every path and capacity. -/
theorem wideMessage_not_rebuilt :
    wideMessage.bytes = [0x40, 2, 0, 0, 0xd4, 14, 1, 0, 0, 0] ∧
      coapParseBlock1 wideMessage.bytes = .ok (blockOf wideMessage) ∧
      Denotes wideMessage.bytes wideMessage ∧
      (∀ path capacity, coapBuildBlock1 (blockOf wideMessage) path capacity = fail .argument) ∧
      ¬Rebuilds wideMessage (blockOf wideMessage) := by
  have hvalues : Message.block1Values wideMessage = [[1, 0, 0, 0]] := by decide +kernel
  have hwell : wideMessage.WellFormed uintMax :=
    ⟨by decide, by decide, by decide, by decide +kernel⟩
  refine ⟨by decide +kernel, by decide +kernel, ⟨rfl, hwell⟩, ?_, ?_⟩
  · intro path capacity
    have hnumber : (blockOf wideMessage).blockNumber > 0xfffff := by decide +kernel
    rw [coapBuildBlock1, if_pos (Or.inr (Or.inr (Or.inl hnumber)))]
  · rintro ⟨⟨value, hvalue, hlength⟩, -, -⟩
    rw [hvalues] at hvalue
    cases hvalue
    exact absurd hlength (by decide)

end AdaptiveLowpan
