import AdaptiveLowpan.CoapGrammar

/-! # The builder against the message format

Whatever the builder returns are the bytes of a Block1 request, so the parser reads
it back. Each append writes one whole option; the invariant of the path loop is that
the options written so far are all numbered 11. -/

namespace AdaptiveLowpan
open ByteWords CheckedMemory CoapMessage

/-! ## One option -/

theorem encodeExtended_of_le {value : ℕ} (h : value ≤ 65804) :
    encodeExtended value = .ok ((Extended.ofNat value).nibble, (Extended.ofNat value).bytes) := by
  unfold encodeExtended Extended.ofNat
  by_cases h13 : value < 13
  · rw [if_pos h13, dif_pos h13]
    rfl
  by_cases h269 : value < 269
  · rw [if_neg h13, if_pos h269, dif_neg h13, if_pos h269]
    rfl
  · rw [if_neg h13, if_neg h269, if_pos h, dif_neg h13, if_neg h269]
    simp only [Nat.shiftRight_eq_div_pow]
    rfl

theorem encodeExtended_of_lt {value : ℕ} (h : 65804 < value) :
    encodeExtended value = fail .range := by
  rw [encodeExtended, if_neg (by omega), if_neg (by omega), if_neg (by omega)]

def rawOption (delta : ℕ) (value : Bytes) (h : value.length ≤ 65804) : RawOption where
  delta := Extended.ofNat delta
  length := Extended.ofNat value.length
  value := value
  value_length := (Extended.value_ofNat h).symm

/-- An append writes one whole option, or nothing when it does not fit. -/
theorem appendOption_of_le {capacity delta : ℕ} {out value : Bytes} (hd : delta ≤ 65804)
    (hv : value.length ≤ 65804) :
    appendOption capacity out delta value =
      if out.length + (rawOption delta value hv).bytes.length ≤ capacity then
        .ok (out ++ (rawOption delta value hv).bytes)
      else fail .capacity := by
  have hmax : uintMax = 4294967295 := rfl
  have hlen : (rawOption delta value hv).bytes.length =
      1 + (Extended.ofNat delta).bytes.length + (Extended.ofNat value.length).bytes.length +
        value.length := by
    simp only [RawOption.bytes, rawOption, List.length_cons, List.length_append]
    omega
  rw [appendOption, if_neg (by omega), encodeExtended_of_le hd, ok_bind]
  simp only [encodeExtended_of_le hv, ok_bind]
  by_cases hfit : out.length + (rawOption delta value hv).bytes.length ≤ capacity
  · rw [if_neg (by omega), if_pos hfit]
    rw [emit_of_le (by simp only [List.length_singleton]; omega), ok_bind,
      emit_of_le (by simp only [List.length_append, List.length_singleton]; omega), ok_bind,
      emit_of_le (by simp only [List.length_append, List.length_singleton]; omega), ok_bind,
      emit_of_le (by simp only [List.length_append, List.length_singleton]; omega)]
    simp only [RawOption.bytes, RawOption.header, rawOption, List.append_assoc,
      List.cons_append, List.nil_append]
  · rw [if_pos (by omega), if_neg hfit]

theorem appendOption_eq_ok {capacity delta : ℕ} {out value out' : Bytes}
    (h : appendOption capacity out delta value = .ok out') :
    ∃ o : RawOption, o.delta.value = delta ∧ o.value = value ∧ out' = out ++ o.bytes := by
  have hd : delta ≤ 65804 := by
    by_contra hd
    rw [appendOption, encodeExtended_of_lt (by omega)] at h
    split at h <;> simp at h
  have hv : value.length ≤ 65804 := by
    by_contra hv
    rw [appendOption, encodeExtended_of_le hd, ok_bind] at h
    simp only [encodeExtended_of_lt (Nat.lt_of_not_le hv), fail_bind] at h
    split at h <;> simp at h
  rw [appendOption_of_le hd hv] at h
  split at h
  · have hout : out ++ (rawOption delta value hv).bytes = out' := by simpa using h
    exact ⟨rawOption delta value hv, Extended.value_ofNat hd, rfl, hout.symm⟩
  · simp at h

/-! ## Integers -/

theorem length_encodeUint_le (v : UInt32) : (encodeUint v).length ≤ 4 := by
  unfold encodeUint
  split
  · simp
  · simp only [List.length_map, List.length_range]
    split_ifs <;> omega

theorem wordValue_encodeUint (v : UInt32) : wordValue (encodeUint v) = v.toNat := by
  have hv := v.toNat_lt
  unfold encodeUint
  by_cases h0 : v = 0
  · subst h0
    rfl
  have h1 : (v ≤ 0xff) = (v.toNat ≤ 255) := propext UInt32.le_iff_toNat_le
  have h2 : (v ≤ 0xffff) = (v.toNat ≤ 65535) := propext UInt32.le_iff_toNat_le
  have h3 : (v ≤ 0xffffff) = (v.toNat ≤ 16777215) := propext UInt32.le_iff_toNat_le
  have b0 := toNat_shiftRight_toUInt8 v (k := 0) (by omega)
  have b8 := toNat_shiftRight_toUInt8 v (k := 8) (by omega)
  have b16 := toNat_shiftRight_toUInt8 v (k := 16) (by omega)
  have b24 := toNat_shiftRight_toUInt8 v (k := 24) (by omega)
  simp only [h0, h1, h2, h3, if_false]
  by_cases hb1 : v.toNat ≤ 255
  · rw [if_pos hb1]
    change 0 * 256 + (v >>> UInt32.ofNat 0).toUInt8.toNat = v.toNat
    omega
  by_cases hb2 : v.toNat ≤ 65535
  · rw [if_neg hb1, if_pos hb2]
    change (0 * 256 + (v >>> UInt32.ofNat 8).toUInt8.toNat) * 256 +
      (v >>> UInt32.ofNat 0).toUInt8.toNat = v.toNat
    omega
  by_cases hb3 : v.toNat ≤ 16777215
  · rw [if_neg hb1, if_neg hb2, if_pos hb3]
    change ((0 * 256 + (v >>> UInt32.ofNat 16).toUInt8.toNat) * 256 +
      (v >>> UInt32.ofNat 8).toUInt8.toNat) * 256 + (v >>> UInt32.ofNat 0).toUInt8.toNat = v.toNat
    omega
  · rw [if_neg hb1, if_neg hb2, if_neg hb3]
    change (((0 * 256 + (v >>> UInt32.ofNat 24).toUInt8.toNat) * 256 +
      (v >>> UInt32.ofNat 16).toUInt8.toNat) * 256 + (v >>> UInt32.ofNat 8).toUInt8.toNat) * 256 +
        (v >>> UInt32.ofNat 0).toUInt8.toNat = v.toNat
    omega

/-! ## The path -/

abbrev pathNumber (first : Bool) : ℕ := if first then 0 else 11

/-- The path loop appends whole options, all numbered 11. -/
theorem appendSegments_spec (first : Bool) {capacity turns number : ℕ} {cursor out out' : Bytes}
    {first' : Bool}
    (h : appendSegments capacity turns cursor (pathNumber first) first out =
      .ok (out', number, first')) :
    ∃ options, out' = out ++ optionStream options ∧ number = pathNumber first' ∧
      lastNumber (pathNumber first) options = number ∧
      ∀ o ∈ numbered (pathNumber first) options, o.1 = 11 := by
  induction turns generalizing cursor first out with
  | zero => simp [appendSegments] at h
  | succ turns ih =>
    rw [appendSegments] at h
    split at h
    · cases h
      exact ⟨[], by simp, rfl, rfl, by simp [numbered]⟩
    simp only at h
    split at h
    · rw [bind_eq_ok_iff] at h
      obtain ⟨out₁, hout₁, h⟩ := h
      obtain ⟨o, hdelta, -, rfl⟩ := appendOption_eq_ok hout₁
      obtain ⟨options, rfl, hnumber, hlast, hall⟩ := ih false h
      have hnext : pathNumber first + o.delta.value = pathNumber false := by
        rw [hdelta]
        cases first <;> rfl
      refine ⟨o :: options, by simp, hnumber, ?_, ?_⟩
      · rw [lastNumber, hnext, hlast]
      · intro p hp
        rw [numbered, hnext] at hp
        rcases List.mem_cons.mp hp with rfl | hp
        · rfl
        · exact hall p hp
    · exact ih first h

theorem appendUriPath_spec {capacity number : ℕ} {out out' path : Bytes}
    (h : appendUriPath capacity out path 0 = .ok (out', number)) :
    number = 11 ∧ ∃ options, out' = out ++ optionStream options ∧ lastNumber 0 options = 11 ∧
      ∀ o ∈ numbered 0 options, o.1 = 11 := by
  rw [appendUriPath, bind_eq_ok_iff] at h
  obtain ⟨⟨out₁, number₁, first⟩, hs, h⟩ := h
  obtain ⟨options, hout, hnumber, hlast, hall⟩ := appendSegments_spec true hs
  cases first with
  | true => simp at h
  | false =>
    have h' : (out₁, number₁) = (out', number) := by simpa [pure, Except.pure] using h
    cases h'
    exact ⟨hnumber, options, hout, hlast.trans hnumber, hall⟩

/-! ## The whole packet -/

theorem header_fields : ∀ t < 4, ∀ n < 9,
    ((0x40 : UInt8) ||| ((UInt8.ofNat t &&& 0x03) <<< 4) ||| UInt8.ofNat n) >>> 6 = 1 ∧
    ((0x40 : UInt8) ||| ((UInt8.ofNat t &&& 0x03) <<< 4) ||| UInt8.ofNat n) &&& 0x0f =
      UInt8.ofNat n ∧
    (((0x40 : UInt8) ||| ((UInt8.ofNat t &&& 0x03) <<< 4) ||| UInt8.ofNat n) >>> 4) &&& 0x03 =
      UInt8.ofNat t := by
  decide

theorem toNat_blockValue {block : CoapBlock} (hn : block.blockNumber ≤ 0xfffff)
    (hs : block.szx ≤ 6) :
    (blockValue block).toNat = block.blockNumber.toNat * 16 +
      (if block.more ≠ 0 then 8 else 0) + block.szx.toNat := by
  have hn : block.blockNumber.toNat ≤ 1048575 := UInt32.le_iff_toNat_le.mp hn
  have hs : block.szx.toNat ≤ 6 := UInt8.le_iff_toNat_le.mp hs
  have h1 : (block.blockNumber <<< 4).toNat = 2 ^ 4 * block.blockNumber.toNat := by
    rw [UInt32.toNat_shiftLeft, Nat.shiftLeft_eq]
    simp
    omega
  unfold blockValue
  split
  · have h2 : ((1 : UInt32) <<< 3).toNat = 8 := by decide
    have h3 : (8 : ℕ) ||| block.szx.toNat = 8 + block.szx.toNat :=
      (Nat.two_pow_add_eq_or_of_lt (i := 3) (by omega) 1).symm
    rw [UInt32.toNat_or, UInt32.toNat_or, h1, h2, UInt8.toNat_toUInt32, Nat.or_assoc, h3,
      ← Nat.two_pow_add_eq_or_of_lt (by omega)]
    omega
  · have h2 : ((0 : UInt32) <<< 3).toNat = 0 := by decide
    rw [UInt32.toNat_or, UInt32.toNat_or, h1, h2, UInt8.toNat_toUInt32, Nat.or_zero,
      ← Nat.two_pow_add_eq_or_of_lt (by omega)]
    omega

def blockOptions (block : CoapBlock) : List (ℕ × Bytes) :=
  [(12, encodeUint block.contentFormat), (27, encodeUint (blockValue block))] ++
    if block.size1 > 0 then [(60, encodeUint block.size1)] else []

structure Buildable (block : CoapBlock) : Prop where
  token_le : block.token.length ≤ 8
  szx_le : block.szx ≤ 6
  number_le : block.blockNumber ≤ 0xfffff

/-- A built packet is a header, the token, path options, the options of the block
and the payload. -/
theorem coapBuildBlock1_spec {block : CoapBlock} {path packet : Bytes} {capacity : ℕ}
    (h : coapBuildBlock1 block path capacity = .ok packet) :
    Buildable block ∧ ∃ options, packet =
        coapHeader block ++ (block.token ++ (optionStream options ++ payloadTrailer block.payload)) ∧
      ∃ pathOptions, (∀ o ∈ pathOptions, o.1 = 11) ∧
        numbered 0 options = pathOptions ++ blockOptions block := by
  rw [coapBuildBlock1] at h
  split at h
  · simp at h
  rename_i hargs
  simp only [not_or, Nat.not_lt, gt_iff_lt, UInt8.not_lt, UInt32.not_lt] at hargs
  refine ⟨⟨hargs.1, hargs.2.1, hargs.2.2.1⟩, ?_⟩
  rw [bind_eq_ok_iff] at h
  obtain ⟨out₁, h₁, h⟩ := h
  rw [bind_eq_ok_iff] at h
  obtain ⟨out₂, h₂, h⟩ := h
  rw [bind_eq_ok_iff] at h
  obtain ⟨⟨out₃, number⟩, h₃, h⟩ := h
  rw [bind_eq_ok_iff] at h
  obtain ⟨out₄, h₄, h⟩ := h
  rw [bind_eq_ok_iff] at h
  obtain ⟨out₅, h₅, h⟩ := h
  rw [bind_eq_ok_iff] at h
  obtain ⟨out₆, h₆, h⟩ := h
  obtain ⟨-, rfl⟩ := emit_eq_ok.mp h₁
  obtain ⟨-, rfl⟩ := emit_eq_ok.mp h₂
  obtain ⟨rfl, pathOptions, rfl, hlast, hall⟩ := appendUriPath_spec h₃
  obtain ⟨o₁₂, hd₁₂, hv₁₂, rfl⟩ := appendOption_eq_ok h₄
  obtain ⟨o₂₇, hd₂₇, hv₂₇, rfl⟩ := appendOption_eq_ok h₅
  -- the last append is the one of an optional option
  have h₆' : ∃ tailOptions, out₆ = (([] ++ coapHeader block ++ block.token ++
      optionStream pathOptions) ++ o₁₂.bytes ++ o₂₇.bytes) ++ optionStream tailOptions ∧
      numbered 27 tailOptions = if block.size1 > 0 then [(60, encodeUint block.size1)] else [] := by
    split at h₆
    · rename_i hsize
      obtain ⟨o₆₀, hd₆₀, hv₆₀, rfl⟩ := appendOption_eq_ok h₆
      exact ⟨[o₆₀], by simp, by simp [numbered, hd₆₀, hv₆₀, hsize]⟩
    · rename_i hsize
      cases h₆
      exact ⟨[], by simp, by simp [numbered, hsize]⟩
  obtain ⟨tailOptions, rfl, htail⟩ := h₆'
  have hpacket : packet = (([] ++ coapHeader block ++ block.token ++
      optionStream pathOptions) ++ o₁₂.bytes ++ o₂₇.bytes) ++ optionStream tailOptions ++
      payloadTrailer block.payload := by
    split at h
    · rename_i hpos
      have hne : block.payload ≠ [] := List.ne_nil_of_length_pos hpos
      split at h
      · simp at h
      · rw [bind_eq_ok_iff] at h
        obtain ⟨out₇, h₇, h⟩ := h
        obtain ⟨-, rfl⟩ := emit_eq_ok.mp h₇
        obtain ⟨-, rfl⟩ := emit_eq_ok.mp h
        simp [payloadTrailer, hne]
    · rename_i hpos
      have hnil : block.payload = [] := by simpa using hpos
      cases h
      simp [payloadTrailer, hnil]
  refine ⟨pathOptions ++ ([o₁₂, o₂₇] ++ tailOptions), ?_, numbered 0 pathOptions, hall, ?_⟩
  · rw [hpacket]
    simp
  · rw [numbered_append, hlast]
    simp [numbered, hd₁₂, hv₁₂, hd₂₇, hv₂₇, blockOptions, htail]

theorem lastValue_of_forall_ne {number : ℕ} {options : List (ℕ × Bytes)}
    (h : ∀ o ∈ options, o.1 ≠ number) : lastValue number options = 0 := by
  induction options using List.reverseRecOn with
  | nil => rfl
  | append_singleton options o ih =>
    rw [lastValue_concat, if_neg (h o (by simp))]
    exact ih fun p hp => h p (by simp [hp])

theorem lastValue_blockOptions (block : CoapBlock) {pathOptions : List (ℕ × Bytes)}
    (h : ∀ o ∈ pathOptions, o.1 = 11) :
    lastValue 12 (pathOptions ++ blockOptions block) = block.contentFormat.toNat ∧
    lastValue 27 (pathOptions ++ blockOptions block) = (blockValue block).toNat ∧
    lastValue 60 (pathOptions ++ blockOptions block) = block.size1.toNat := by
  have h60 : lastValue 60 pathOptions = 0 :=
    lastValue_of_forall_ne fun o ho => by rw [h o ho]; decide
  -- one concatenation for each option, as `lastValue_concat` reads them
  have hsplit : pathOptions ++ blockOptions block =
      if block.size1 > 0 then
        ((pathOptions ++ [(12, encodeUint block.contentFormat)]) ++
          [(27, encodeUint (blockValue block))]) ++ [(60, encodeUint block.size1)]
      else
        (pathOptions ++ [(12, encodeUint block.contentFormat)]) ++
          [(27, encodeUint (blockValue block))] := by
    unfold blockOptions
    split <;> simp
  rw [hsplit]
  split
  · simp only [lastValue_concat, wordValue_encodeUint]
    exact ⟨rfl, rfl, rfl⟩
  · rename_i hsize
    have hzero : block.size1.toNat = 0 := by
      rw [gt_iff_lt, UInt32.lt_iff_toNat_lt] at hsize
      exact Nat.le_zero.mp (Nat.not_lt.mp hsize)
    simp only [lastValue_concat, wordValue_encodeUint, hzero]
    exact ⟨rfl, rfl, h60⟩

theorem admissible_blockOptions {block : CoapBlock} (hb : Buildable block) :
    ∀ o ∈ blockOptions block, o.1 ≤ uintMax ∧ Admissible o := by
  have hszx : wordValue (encodeUint (blockValue block)) % 8 ≤ 6 := by
    rw [wordValue_encodeUint, toNat_blockValue hb.number_le hb.szx_le]
    have hs : block.szx.toNat ≤ 6 := UInt8.le_iff_toNat_le.mp hb.szx_le
    split <;> omega
  intro o ho
  have hcases : o = (12, encodeUint block.contentFormat) ∨
      o = (27, encodeUint (blockValue block)) ∨ o = (60, encodeUint block.size1) := by
    unfold blockOptions at ho
    split at ho
    · simpa using ho
    · have ho' : o = (12, encodeUint block.contentFormat) ∨
          o = (27, encodeUint (blockValue block)) := by simpa using ho
      rcases ho' with h | h
      · exact Or.inl h
      · exact Or.inr (Or.inl h)
  rcases hcases with rfl | rfl | rfl
  · exact ⟨(by decide : 12 ≤ uintMax), fun _ => length_encodeUint_le _,
      fun h => absurd h (by decide : 12 ≠ 27)⟩
  · exact ⟨(by decide : 27 ≤ uintMax), fun _ => length_encodeUint_le _, fun _ => hszx⟩
  · exact ⟨(by decide : 60 ≤ uintMax), fun _ => length_encodeUint_le _,
      fun h => absurd h (by decide : 60 ≠ 27)⟩

def CoapBlock.received (block : CoapBlock) : CoapBlock :=
  { block with more := if block.more ≠ 0 then 1 else 0 }

theorem coapParseBlock1_of_build {block : CoapBlock} {path packet : Bytes} {capacity : ℕ}
    (htype : block.type < 4) (h : coapBuildBlock1 block path capacity = .ok packet) :
    coapParseBlock1 packet = .ok block.received := by
  obtain ⟨hb, options, rfl, pathOptions, hpath, hnumbered⟩ := coapBuildBlock1_spec h
  have hs : block.szx.toNat ≤ 6 := UInt8.le_iff_toNat_le.mp hb.szx_le
  have ht : block.type.toNat < 4 := UInt8.lt_iff_toNat_lt.mp htype
  obtain ⟨hversion, htoken, htype'⟩ :=
    header_fields block.type.toNat ht block.token.length (Nat.lt_succ_of_le hb.token_le)
  rw [UInt8.ofNat_toNat] at hversion htoken htype'
  obtain ⟨h12, h27, h60⟩ := lastValue_blockOptions block hpath
  rw [toNat_blockValue hb.number_le hb.szx_le] at h27
  apply (coapParseBlock1_eq_ok_iff _ _).mpr
  refine ⟨⟨_, block.code, (block.messageId >>> 8).toUInt8, block.messageId.toUInt8, block.token,
    options, block.payload⟩, rfl, ?_, ?_⟩
  · have hadm : ∀ o ∈ numbered 0 options, o.1 ≤ uintMax ∧ Admissible o := by
      intro o ho
      rw [hnumbered, List.mem_append] at ho
      rcases ho with ho | ho
      · have h11 := hpath o ho
        exact ⟨by rw [h11]; decide, fun h' => absurd h' (by omega), fun h' => absurd h' (by omega)⟩
      · exact admissible_blockOptions hb o ho
    refine ⟨⟨hversion, ?_, hb.token_le, fun o ho => (hadm o ho).1⟩, fun o ho => (hadm o ho).2, ?_⟩
    · have hlt : block.token.length < 256 := Nat.lt_of_le_of_lt hb.token_le (by decide)
      rw [htoken, UInt8.toNat_ofNat', Nat.mod_eq_of_lt hlt]
    · exact ⟨(27, encodeUint (blockValue block)), by rw [hnumbered]; simp [blockOptions], rfl⟩
  · have hid : UInt16.ofNat ((block.messageId >>> 8).toUInt8.toNat * 256 +
        block.messageId.toUInt8.toNat) = block.messageId := by
      have hlt := block.messageId.toNat_lt
      apply UInt16.toNat_inj.mp
      rw [UInt16.toNat_ofNat', UInt16.toNat_toUInt8, UInt16.toNat_toUInt8, UInt16.toNat_shiftRight,
        Nat.shiftRight_eq_div_pow]
      simp
      omega
    have hmore : UInt8.ofNat (lastValue 27 (pathOptions ++ blockOptions block) / 8 % 2) =
        if block.more ≠ 0 then 1 else 0 := by
      rw [h27]
      split
      · have h1 : (block.blockNumber.toNat * 16 + 8 + block.szx.toNat) / 8 % 2 = 1 := by omega
        rw [h1]
        rfl
      · have h1 : (block.blockNumber.toNat * 16 + 0 + block.szx.toNat) / 8 % 2 = 0 := by omega
        rw [h1]
        rfl
    have hszx : lastValue 27 (pathOptions ++ blockOptions block) % 8 = block.szx.toNat := by
      rw [h27]
      split <;> omega
    have hnum : lastValue 27 (pathOptions ++ blockOptions block) / 16 = block.blockNumber.toNat := by
      rw [h27]
      split <;> omega
    simp only [blockOf, hnumbered, h12, h60, hszx, hnum, hmore, hid, htype', UInt8.ofNat_toNat,
      UInt32.ofNat_toNat, CoapBlock.received]

/-- Parsing undoes building, with the more flag normalised. -/
theorem coapParseBlock1_coapBuildBlock1 (block : CoapBlock) (uriPath packet : Bytes)
    (capacity : ℕ) (htype : block.type < 4)
    (h : coapBuildBlock1 block uriPath capacity = .ok packet) :
    coapParseBlock1 packet = .ok { block with more := if block.more ≠ 0 then 1 else 0 } :=
  coapParseBlock1_of_build htype h

/-- Block 3 of window 7, under the path `/a//bc`. -/
theorem coapParseBlock1_coapBuildBlock1_path :
    coapParseBlock1 [68, 2, 18, 52, 0, 0, 0, 7, 177, 97, 2, 98, 99, 17, 42, 209, 2, 58, 210, 20, 1,
        44, 255, 255, 1, 2] =
      .ok { type := 0, code := 2, messageId := 0x1234, token := [0, 0, 0, 7], blockNumber := 3,
            more := 1, szx := 2, contentFormat := 42, size1 := 300, payload := [0xff, 1, 2] } :=
  coapParseBlock1_coapBuildBlock1
    { type := 0, code := 2, messageId := 0x1234, token := [0, 0, 0, 7], blockNumber := 3,
      more := 0xff, szx := 2, contentFormat := 42, size1 := 300, payload := [0xff, 1, 2] }
    [0x2f, 0x61, 0x2f, 0x2f, 0x62, 0x63] _ 64 (by decide) rfl

end AdaptiveLowpan
