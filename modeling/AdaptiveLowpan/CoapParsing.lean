import AdaptiveLowpan.CoapBlock
import AdaptiveLowpan.CoapMessage

/-! # The parser against the message format

The parser accepts exactly the well-formed messages that satisfy the Block1
constraints, and the fields it returns are those of the message. The invariant of
its loop ties the offset to a split of the packet into whole options. -/

namespace AdaptiveLowpan
open ByteWords CheckedMemory CoapMessage

/-! ## Extended numbers -/

theorem decodeExtended_of_drop (e : Extended) {packet rest : Bytes} {offset : ℕ}
    (hle : offset ≤ packet.length) (h : packet.drop offset = e.bytes ++ rest) :
    decodeExtended e.nibble packet offset = .ok (e.value, offset + e.bytes.length) := by
  have hlen := add_length_le_of_drop hle h
  cases e with
  | direct n hn =>
    have hv : (UInt8.ofNat n).toNat = n := by rw [UInt8.toNat_ofNat']; omega
    have hlt : UInt8.ofNat n < 13 := by rw [UInt8.lt_iff_toNat_lt, hv]; exact hn
    simp [decodeExtended, Extended.nibble, Extended.bytes, Extended.value, hlt, hv]
  | byte low =>
    have hread : (readAt packet offset : Outcome UInt8) = .ok low := readAt_of_drop h
    have hin : ¬offset ≥ packet.length := by simp [Extended.bytes] at hlen; omega
    change decodeExtended 13 packet offset = .ok (13 + low.toNat, offset + 1)
    rw [decodeExtended, if_neg (by decide), if_pos rfl, if_neg hin, hread]
    rfl
  | word high low =>
    have hhigh : (readAt packet offset : Outcome UInt8) = .ok high := readAt_of_drop h
    have hlow : (readAt packet (offset + 1) : Outcome UInt8) = .ok low :=
      readAt_of_drop (drop_succ_of_drop h)
    have hin : ¬(offset > packet.length ∨ packet.length - offset < 2) := by
      simp [Extended.bytes] at hlen
      omega
    change decodeExtended 14 packet offset =
      .ok (269 + high.toNat * 256 + low.toNat, offset + 2)
    rw [decodeExtended, if_neg (by decide), if_neg (by decide), if_pos rfl, if_neg hin, hhigh,
      hlow]
    rfl

/-- Whatever is accepted as an extended number lies in the packet at the offset. -/
theorem decodeExtended_spec {nibble : UInt8} {packet : Bytes} {offset value next : ℕ}
    (hle : offset ≤ packet.length)
    (h : decodeExtended nibble packet offset = .ok (value, next)) :
    ∃ e : Extended, e.nibble = nibble ∧ e.value = value ∧ next ≤ packet.length ∧
      packet.drop offset = e.bytes ++ packet.drop next := by
  unfold decodeExtended at h
  split at h
  · rename_i hlt
    cases h
    have hn : nibble.toNat < 13 := UInt8.lt_iff_toNat_lt.mp hlt
    exact ⟨.direct nibble.toNat hn, by simp [Extended.nibble], rfl, hle, by simp [Extended.bytes]⟩
  split at h
  · rename_i hbyte
    split at h
    · simp at h
    · rename_i hlen
      have hlt : offset < packet.length := by omega
      rw [readAt_of_lt hlt] at h
      cases h
      refine ⟨.byte packet[offset], hbyte.symm, rfl, hlt, ?_⟩
      exact List.drop_eq_getElem_cons hlt
  split at h
  · rename_i hword
    split at h
    · simp at h
    · rename_i hlen
      have hlt : offset + 1 < packet.length := by omega
      rw [readAt_of_lt (by omega), ok_bind, readAt_of_lt hlt] at h
      cases h
      refine ⟨.word packet[offset] packet[offset + 1], hword.symm, rfl, by omega, ?_⟩
      rw [List.drop_eq_getElem_cons (by omega), List.drop_eq_getElem_cons hlt]
      rfl
  · simp at h

theorem decodeExtended_ne_fault (nibble : UInt8) (packet : Bytes) (offset : ℕ) :
    decodeExtended nibble packet offset ≠ .error .fault := by
  unfold decodeExtended
  split
  · simp
  split
  · split
    · simp
    · rw [readAt_of_lt (by omega)]
      simp [pure, Except.pure]
  split
  · split
    · simp
    · rw [readAt_of_lt (by omega), ok_bind, readAt_of_lt (by omega)]
      simp [pure, Except.pure]
  · simp

/-! ## Option values -/

theorem toNat_foldl_shiftIn (value : Bytes) (h : value.length ≤ 4) :
    (value.foldl (fun (result : UInt32) byte => (result <<< 8) ||| byte.toUInt32) 0).toNat =
      wordValue value := by
  induction value using List.reverseRecOn with
  | nil => rfl
  | append_singleton value byte ih =>
    simp only [List.length_append, List.length_singleton] at h
    have hlt := wordValue_lt value
    have hpow : 256 ^ value.length ≤ 256 ^ 3 := Nat.pow_le_pow_right (by omega) (by omega)
    rw [List.foldl_append, List.foldl_cons, List.foldl_nil, toNat_shiftIn, ih (by omega),
      wordValue_concat]
    rw [ih (by omega)]
    omega

theorem decodeUint_of_le {value : Bytes} (h : value.length ≤ 4) :
    decodeUint value = .ok (UInt32.ofNat (wordValue value)) := by
  rw [decodeUint, if_neg (by omega)]
  congr 1
  apply UInt32.toNat_inj.mp
  rw [toNat_foldl_shiftIn value h, UInt32.toNat_ofNat', Nat.mod_eq_of_lt]
  have hlt := wordValue_lt value
  have hpow : 256 ^ value.length ≤ 256 ^ 4 := Nat.pow_le_pow_right (by omega) h
  omega

/-- The Block1 constraints on one option: the values that are read have at most
four bytes, and a Block1 value has a legal size exponent. -/
def Admissible (o : ℕ × Bytes) : Prop :=
  (o.1 = 12 ∨ o.1 = 27 ∨ o.1 = 60 → o.2.length ≤ 4) ∧ (o.1 = 27 → wordValue o.2 % 8 ≤ 6)

instance (o : ℕ × Bytes) : Decidable (Admissible o) := by
  unfold Admissible
  infer_instance

def applyOption (block : CoapBlock) (o : ℕ × Bytes) : CoapBlock :=
  if o.1 = 12 then { block with contentFormat := UInt32.ofNat (wordValue o.2) }
  else if o.1 = 27 then { block with
    szx := UInt8.ofNat (wordValue o.2 % 8)
    more := UInt8.ofNat (wordValue o.2 / 8 % 2)
    blockNumber := UInt32.ofNat (wordValue o.2 / 16) }
  else if o.1 = 60 then { block with size1 := UInt32.ofNat (wordValue o.2) }
  else block

/-! The three fields of a Block1 value. -/

private theorem szx_field {v : ℕ} (h : v < 2 ^ 32) :
    (UInt32.ofNat v &&& 0x07).toNat = v % 8 := by
  rw [UInt32.toNat_and, UInt32.toNat_ofNat', Nat.mod_eq_of_lt h]
  exact Nat.and_two_pow_sub_one_eq_mod v 3

private theorem more_field {v : ℕ} (h : v < 2 ^ 32) :
    ((UInt32.ofNat v >>> 3) &&& 0x01).toNat = v / 8 % 2 := by
  rw [UInt32.toNat_and, UInt32.toNat_shiftRight, UInt32.toNat_ofNat', Nat.mod_eq_of_lt h,
    Nat.shiftRight_eq_div_pow]
  exact Nat.and_two_pow_sub_one_eq_mod (v / 8) 1

private theorem number_field {v : ℕ} (h : v < 2 ^ 32) :
    (UInt32.ofNat v >>> 4).toNat = v / 16 := by
  rw [UInt32.toNat_shiftRight, UInt32.toNat_ofNat', Nat.mod_eq_of_lt h]
  exact Nat.shiftRight_eq_div_pow v 4

private theorem wordValue_lt_of_le {value : Bytes} (h : value.length ≤ 4) :
    wordValue value < 2 ^ 32 := by
  have hlt := wordValue_lt value
  have hpow : 256 ^ value.length ≤ 256 ^ 4 := Nat.pow_le_pow_right (by omega) h
  omega

theorem storeOption_of_admissible (o : ℕ × Bytes) (found : Bool) (block : CoapBlock)
    (h : Admissible o) :
    storeOption o.1 o.2 found block = .ok (found || o.1 = 27, applyOption block o) := by
  obtain ⟨hlen, hszx⟩ := h
  unfold storeOption applyOption
  by_cases h12 : o.1 = 12
  · simp [h12, decodeUint_of_le (hlen (Or.inl h12)), pure, Except.pure]
  by_cases h27 : o.1 = 27
  · have hlen := hlen (Or.inr (Or.inl h27))
    have hv := wordValue_lt_of_le hlen
    have hok : ¬UInt32.ofNat (wordValue o.2) &&& 0x07 > 6 := by
      rw [gt_iff_lt, UInt32.lt_iff_toNat_lt, szx_field hv]
      exact Nat.not_lt.mpr (hszx h27)
    have h1 : (UInt32.ofNat (wordValue o.2) &&& 0x07).toUInt8 = UInt8.ofNat (wordValue o.2 % 8) := by
      apply UInt8.toNat_inj.mp
      rw [UInt32.toNat_toUInt8, szx_field hv, UInt8.toNat_ofNat']
    have h2 : ((UInt32.ofNat (wordValue o.2) >>> 3) &&& 0x01).toUInt8 =
        UInt8.ofNat (wordValue o.2 / 8 % 2) := by
      apply UInt8.toNat_inj.mp
      rw [UInt32.toNat_toUInt8, more_field hv, UInt8.toNat_ofNat']
    have h3 : UInt32.ofNat (wordValue o.2) >>> 4 = UInt32.ofNat (wordValue o.2 / 16) := by
      apply UInt32.toNat_inj.mp
      rw [number_field hv, UInt32.toNat_ofNat']
      omega
    rw [if_neg h12, if_pos h27, decodeUint_of_le hlen, ok_bind, if_neg hok, h1, h2, h3,
      if_neg h12, if_pos h27]
    simp [h27, pure, Except.pure]
  by_cases h60 : o.1 = 60
  · simp [h60, decodeUint_of_le (hlen (Or.inr (Or.inr h60))), pure, Except.pure]
  · simp [h12, h27, h60, pure, Except.pure]

theorem storeOption_of_not_admissible (o : ℕ × Bytes) (found : Bool) (block : CoapBlock)
    (h : ¬Admissible o) : storeOption o.1 o.2 found block = fail .format := by
  have hlong (hl : ¬o.2.length ≤ 4) : decodeUint o.2 = fail .format := if_pos (by omega)
  unfold storeOption
  by_cases h12 : o.1 = 12
  · have hl : ¬o.2.length ≤ 4 := fun hl => h ⟨fun _ => hl, by omega⟩
    rw [if_pos h12, hlong hl, fail_bind]
  by_cases h27 : o.1 = 27
  · rw [if_neg h12, if_pos h27]
    by_cases hl : o.2.length ≤ 4
    · have hv := wordValue_lt_of_le hl
      have hbad : UInt32.ofNat (wordValue o.2) &&& 0x07 > 6 := by
        rw [gt_iff_lt, UInt32.lt_iff_toNat_lt, szx_field hv]
        exact Nat.lt_of_not_le fun hle => h ⟨fun _ => hl, fun _ => hle⟩
      rw [decodeUint_of_le hl, ok_bind, if_pos hbad]
    · rw [hlong hl, fail_bind]
  by_cases h60 : o.1 = 60
  · have hl : ¬o.2.length ≤ 4 := fun hl => h ⟨fun _ => hl, by omega⟩
    rw [if_neg h12, if_neg h27, if_pos h60, hlong hl, fail_bind]
  · exact absurd ⟨by omega, by omega⟩ h

/-! ## One turn of the loop -/

theorem parseOption_of_drop (o : RawOption) {packet rest : Bytes} {s : ParseState}
    (hle : s.offset ≤ packet.length) (h : packet.drop s.offset = o.bytes ++ rest) :
    parseOption packet o.header s =
      if s.optionNumber > uintMax - o.delta.value then fail .format
      else (storeOption (s.optionNumber + o.delta.value) o.value s.foundBlock1 s.block).map
        fun r => ⟨s.offset + o.bytes.length, s.optionNumber + o.delta.value, r.1, r.2⟩ := by
  have hend := add_length_le_of_drop hle h
  have h1 : packet.drop (s.offset + 1) = o.delta.bytes ++ (o.length.bytes ++ (o.value ++ rest)) := by
    have h' : packet.drop s.offset =
        [o.header] ++ (o.delta.bytes ++ (o.length.bytes ++ (o.value ++ rest))) := by
      rw [h]
      simp [RawOption.bytes]
    exact drop_add_of_drop h'
  have h2 := drop_add_of_drop h1
  have h3 := drop_add_of_drop h2
  simp only [RawOption.bytes, List.length_cons, List.length_append] at hend
  have hd := decodeExtended_of_drop o.delta (by omega) h1
  have hl := decodeExtended_of_drop o.length (by omega) h2
  have hv : (readSlice packet (s.offset + 1 + o.delta.bytes.length + o.length.bytes.length)
      o.length.value : Outcome Bytes) = .ok o.value := by
    rw [← o.value_length]
    exact readSlice_of_drop (by omega) h3
  have hvl := o.value_length
  rw [parseOption, o.highNibble_header, o.lowNibble_header, hd, ok_bind]
  simp only [hl, ok_bind]
  by_cases hn : s.optionNumber > uintMax - o.delta.value
  · rw [if_pos (Or.inr (Or.inr hn)), if_pos hn]
  · rw [if_neg (by omega), if_neg hn, hv, ok_bind]
    have hlen : s.offset + 1 + o.delta.bytes.length + o.length.bytes.length + o.length.value =
        s.offset + o.bytes.length := by
      simp only [RawOption.bytes, List.length_cons, List.length_append]
      omega
    rw [hlen]
    cases storeOption (s.optionNumber + o.delta.value) o.value s.foundBlock1 s.block <;> rfl

/-- A turn that does not stop has consumed a whole option. -/
theorem parseOption_spec {packet : Bytes} {header : UInt8} {s s' : ParseState}
    (hread : (readAt packet s.offset : Outcome UInt8) = .ok header) (hne : header ≠ 0xff)
    (h : parseOption packet header s = .ok s') :
    ∃ o : RawOption, o.header = header ∧ packet.drop s.offset = o.bytes ++ packet.drop s'.offset := by
  have hget := readAt_eq_ok.mp hread
  have hlt := (List.getElem?_eq_some_iff.mp hget).1
  rw [parseOption, bind_eq_ok_iff] at h
  obtain ⟨⟨delta, next⟩, hd, h⟩ := h
  obtain ⟨e, he, hev, hle, hdrop⟩ := decodeExtended_spec hlt hd
  rw [bind_eq_ok_iff] at h
  obtain ⟨⟨length, next'⟩, hl, h⟩ := h
  obtain ⟨e', he', hev', hle', hdrop'⟩ := decodeExtended_spec hle hl
  simp only at h
  split at h
  · simp at h
  · rename_i hin
    simp only [not_or, Nat.not_lt, gt_iff_lt] at hin
    rw [bind_eq_ok_iff] at h
    obtain ⟨value, hv, h⟩ := h
    rw [readSlice_of_le (by omega)] at hv
    cases hv
    rw [bind_eq_ok_iff] at h
    obtain ⟨⟨found, block⟩, hs, h⟩ := h
    cases h
    have hheader : (e.nibble <<< 4) ||| e'.nibble = header := by
      apply UInt8.toNat_inj.mp
      have h1 := e.nibble_le
      have h2 := e'.nibble_le
      rw [toNat_packNibbles (by omega) (by omega), he, he', toNat_highNibble, toNat_lowNibble]
      omega
    refine ⟨⟨e, e', (packet.drop next').take length, ?_⟩, hheader, ?_⟩
    · rw [List.length_take, List.length_drop, hev']
      omega
    · have hfirst : packet.drop s.offset = header :: packet.drop (s.offset + 1) := by
        rw [List.drop_eq_getElem_cons hlt]
        rw [List.getElem?_eq_getElem hlt] at hget
        cases hget
        rfl
      have hrest : packet.drop next' =
          (packet.drop next').take length ++ packet.drop (next' + length) := by
        rw [← List.drop_drop, List.take_append_drop]
      rw [hfirst, hdrop, hdrop', RawOption.bytes, RawOption.header, hheader]
      simp only [List.cons_append, List.append_assoc]
      rw [← hrest]

/-! ## The loop -/

/-- The fields after a sequence of numbered options are those of the last option of
each number. -/
theorem foldl_applyOption (block : CoapBlock) (options : List (ℕ × Bytes))
    (hb : block = { block with
      contentFormat := 0, szx := 0, more := 0, blockNumber := 0, size1 := 0 }) :
    options.foldl applyOption block = { block with
      contentFormat := UInt32.ofNat (lastValue 12 options)
      szx := UInt8.ofNat (lastValue 27 options % 8)
      more := UInt8.ofNat (lastValue 27 options / 8 % 2)
      blockNumber := UInt32.ofNat (lastValue 27 options / 16)
      size1 := UInt32.ofNat (lastValue 60 options) } := by
  induction options using List.reverseRecOn with
  | nil => exact hb
  | append_singleton options o ih =>
    rw [List.foldl_append, List.foldl_cons, List.foldl_nil, ih]
    simp only [lastValue_concat, applyOption]
    by_cases h12 : o.1 = 12
    · simp [h12]
    by_cases h27 : o.1 = 27
    · simp [h27]
    by_cases h60 : o.1 = 60
    · simp [h60]
    · simp [h12, h27, h60]

/-- The state after whole options: past their bytes, at their last number, with
their values stored. -/
def ParseState.after (s : ParseState) (options : List RawOption) : ParseState where
  offset := s.offset + (optionStream options).length
  optionNumber := lastNumber s.optionNumber options
  foundBlock1 := s.foundBlock1 || (numbered s.optionNumber options).any (·.1 = 27)
  block := (numbered s.optionNumber options).foldl applyOption s.block

theorem ParseState.after_cons (s : ParseState) (o : RawOption) (options : List RawOption) :
    s.after (o :: options) =
      (ParseState.mk (s.offset + o.bytes.length) (s.optionNumber + o.delta.value)
        (s.foundBlock1 || s.optionNumber + o.delta.value = 27)
        (applyOption s.block (s.optionNumber + o.delta.value, o.value))).after options := by
  simp [ParseState.after, numbered, lastNumber, Nat.add_assoc, Bool.or_assoc]

theorem parseOption_eq_ok_iff (o : RawOption) {packet rest : Bytes} {s s' : ParseState}
    (hle : s.offset ≤ packet.length) (h : packet.drop s.offset = o.bytes ++ rest) :
    parseOption packet o.header s = .ok s' ↔
      s.optionNumber + o.delta.value ≤ uintMax ∧
      Admissible (s.optionNumber + o.delta.value, o.value) ∧
      s' = ⟨s.offset + o.bytes.length, s.optionNumber + o.delta.value,
        s.foundBlock1 || s.optionNumber + o.delta.value = 27,
        applyOption s.block (s.optionNumber + o.delta.value, o.value)⟩ := by
  have hdelta := o.delta.value_le
  have hmax : uintMax = 4294967295 := rfl
  rw [parseOption_of_drop o hle h]
  by_cases hn : s.optionNumber > uintMax - o.delta.value
  · rw [if_pos hn]
    simp only [fail_ne_ok, false_iff]
    omega
  · rw [if_neg hn]
    by_cases ha : Admissible (s.optionNumber + o.delta.value, o.value)
    · have hs := storeOption_of_admissible _ s.foundBlock1 s.block ha
      simp only at hs
      rw [hs]
      have hle' : s.optionNumber + o.delta.value ≤ uintMax := by omega
      simp [Except.map, ha, hle', eq_comm]
    · have hs := storeOption_of_not_admissible _ s.foundBlock1 s.block ha
      simp only at hs
      rw [hs]
      simp [fail, Except.map, ha]

/-- The loop accepts exactly a sequence of whole, admissible options up to the end
of the packet or the payload marker. -/
theorem parseOptions_eq_ok_iff {packet : Bytes} (turns : ℕ) (s : ParseState) {s' : ParseState}
    (hle : s.offset ≤ packet.length) (hturns : packet.length - s.offset < turns) :
    parseOptions packet turns s = .ok s' ↔
      ∃ options tail, packet.drop s.offset = optionStream options ++ tail ∧
        (tail = [] ∨ ∃ payload, tail = 0xff :: payload) ∧
        (∀ o ∈ numbered s.optionNumber options, o.1 ≤ uintMax ∧ Admissible o) ∧
        s' = s.after options := by
  induction turns generalizing s s' with
  | zero => omega
  | succ turns ih =>
    rw [parseOptions]
    constructor
    · intro h
      split at h
      · rename_i hlt
        rw [readAt_of_lt hlt, ok_bind] at h
        split at h
        · rename_i hmark
          have hs : s = s' := by simpa using h
          refine ⟨[], packet.drop s.offset, rfl, Or.inr ⟨packet.drop (s.offset + 1), ?_⟩,
            by simp [numbered], by simp [ParseState.after, numbered, lastNumber, ← hs]⟩
          rw [List.drop_eq_getElem_cons hlt, hmark]
        · rename_i hmark
          rw [bind_eq_ok_iff] at h
          obtain ⟨s₁, hs₁, h⟩ := h
          obtain ⟨o, hheader, hdrop⟩ := parseOption_spec (readAt_of_lt hlt) hmark hs₁
          rw [← hheader, parseOption_eq_ok_iff o hle hdrop] at hs₁
          obtain ⟨hn, ha, hs₁⟩ := hs₁
          rw [hs₁] at h hdrop
          have hle' := add_length_le_of_drop hle hdrop
          have hpos : 0 < o.bytes.length := by simp [RawOption.bytes]
          rw [ih _ hle' (by simp only; omega)] at h
          obtain ⟨options, tail, hrest, htail, hadm, hs'⟩ := h
          refine ⟨o :: options, tail, ?_, htail, ?_, ?_⟩
          · rw [hdrop, hrest, optionStream_cons, List.append_assoc]
          · intro p hp
            rcases List.mem_cons.mp hp with rfl | hp
            · exact ⟨hn, ha⟩
            · exact hadm p hp
          · rw [hs', ParseState.after_cons]
      · rename_i hlt
        have hs : s = s' := by simpa using h
        refine ⟨[], [], ?_, Or.inl rfl, by simp [numbered],
          by simp [ParseState.after, numbered, lastNumber, ← hs]⟩
        exact List.drop_eq_nil_of_le (by omega)
    · rintro ⟨options, tail, hdrop, htail, hadm, rfl⟩
      cases options with
      | nil =>
        have hs : s.after [] = s := by simp [ParseState.after, numbered, lastNumber]
        rw [hs]
        rcases htail with rfl | ⟨payload, rfl⟩
        · have hend : packet.length ≤ s.offset := List.drop_eq_nil_iff.mp hdrop
          rw [if_neg (by omega)]
        · have hread : (readAt packet s.offset : Outcome UInt8) = .ok 0xff := readAt_of_drop hdrop
          have hlt := add_length_le_of_drop (a := [0xff]) hle hdrop
          simp only [List.length_singleton] at hlt
          rw [if_pos (by omega), hread, ok_bind, if_pos rfl]
      | cons o options =>
        rw [optionStream_cons, List.append_assoc] at hdrop
        have hread : (readAt packet s.offset : Outcome UInt8) = .ok o.header := readAt_of_drop hdrop
        have hle' := add_length_le_of_drop hle hdrop
        have hpos : 0 < o.bytes.length := by simp [RawOption.bytes]
        have hhead := hadm _ List.mem_cons_self
        have hturn := (parseOption_eq_ok_iff o hle hdrop).mpr ⟨hhead.1, hhead.2, rfl⟩
        rw [if_pos (by omega), hread, ok_bind, if_neg o.header_ne_marker, hturn, ok_bind,
          ParseState.after_cons]
        apply (ih _ hle' (by simp only; omega)).mpr
        exact ⟨options, tail, drop_add_of_drop hdrop, htail,
          fun p hp => hadm p (List.mem_cons_of_mem _ hp), rfl⟩

/-! ## No access outside the packet -/

theorem storeOption_ne_fault (number : ℕ) (value : Bytes) (found : Bool) (block : CoapBlock) :
    storeOption number value found block ≠ .error .fault := by
  by_cases h : Admissible (number, value)
  · have hs := storeOption_of_admissible _ found block h
    simp only at hs
    simp [hs]
  · have hs := storeOption_of_not_admissible _ found block h
    simp only at hs
    simp [hs]

theorem parseOption_ne_fault (packet : Bytes) (header : UInt8) (s : ParseState) :
    parseOption packet header s ≠ .error .fault := by
  unfold parseOption
  refine bind_ne_fault (decodeExtended_ne_fault _ _ _) ?_
  intro r _
  refine bind_ne_fault (decodeExtended_ne_fault _ _ _) ?_
  intro r' _
  simp only
  split
  · simp
  · rw [readSlice_of_le (by omega), ok_bind]
    refine bind_ne_fault (storeOption_ne_fault _ _ _ _) ?_
    intro r'' _
    simp [pure, Except.pure]

theorem parseOptions_ne_fault {packet : Bytes} {turns : ℕ} {s : ParseState}
    (hle : s.offset ≤ packet.length) (hturns : packet.length - s.offset < turns) :
    parseOptions packet turns s ≠ .error .fault := by
  induction turns generalizing s with
  | zero => omega
  | succ turns ih =>
    rw [parseOptions]
    split
    · rename_i hlt
      rw [readAt_of_lt hlt, ok_bind]
      split
      · simp
      · rename_i hmark
        refine bind_ne_fault (parseOption_ne_fault _ _ _) ?_
        intro s₁ hs
        obtain ⟨o, hheader, hdrop⟩ := parseOption_spec (readAt_of_lt hlt) hmark hs
        rw [← hheader, parseOption_eq_ok_iff o hle hdrop] at hs
        obtain ⟨-, -, rfl⟩ := hs
        have hpos : 0 < o.bytes.length := by simp [RawOption.bytes]
        exact ih (add_length_le_of_drop hle hdrop) (by simp only; omega)
    · simp

end AdaptiveLowpan
