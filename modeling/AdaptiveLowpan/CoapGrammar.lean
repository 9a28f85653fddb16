import AdaptiveLowpan.CoapParsing

/-! # The packets that the Block1 parser accepts

A Block1 request is a message of the format whose options meet the Block1
constraints. The parser accepts exactly the requests and returns their fields. -/

namespace AdaptiveLowpan
open ByteWords CheckedMemory CoapMessage

/-- A message with a Block1 option, all of whose options are admissible. -/
structure Block1Request (m : Message) : Prop where
  wellFormed : m.WellFormed uintMax
  admissible : ∀ o ∈ numbered 0 m.options, Admissible o
  block1 : ∃ o ∈ numbered 0 m.options, o.1 = 27

/-- The block that a message carries: its options 12, 27 and 60 give the content
format, the Block1 fields and the total size. -/
def blockOf (m : Message) : CoapBlock where
  type := (m.first >>> 4) &&& 0x03
  code := m.code
  messageId := UInt16.ofNat (m.idHigh.toNat * 256 + m.idLow.toNat)
  token := m.token
  blockNumber := UInt32.ofNat (lastValue 27 (numbered 0 m.options) / 16)
  more := UInt8.ofNat (lastValue 27 (numbered 0 m.options) / 8 % 2)
  szx := UInt8.ofNat (lastValue 27 (numbered 0 m.options) % 8)
  contentFormat := UInt32.ofNat (lastValue 12 (numbered 0 m.options))
  size1 := UInt32.ofNat (lastValue 60 (numbered 0 m.options))
  payload := m.payload

theorem messageId_eq (high low : UInt8) :
    (high.toUInt16 <<< 8) ||| low.toUInt16 = UInt16.ofNat (high.toNat * 256 + low.toNat) := by
  have hh := high.toNat_lt
  have hl : low.toNat < 2 ^ 8 := low.toNat_lt
  have hs : (high.toUInt16 <<< 8).toNat = 2 ^ 8 * high.toNat := by
    rw [UInt16.toNat_shiftLeft, Nat.shiftLeft_eq]
    simp
    omega
  apply UInt16.toNat_inj.mp
  rw [UInt16.toNat_or, hs, UInt8.toNat_toUInt16, ← Nat.two_pow_add_eq_or_of_lt hl,
    UInt16.toNat_ofNat']
  omega

def headerBlock (first code idHigh idLow : UInt8) (token : Bytes) : CoapBlock where
  type := (first >>> 4) &&& 0x03
  code := code
  messageId := (idHigh.toUInt16 <<< 8) ||| idLow.toUInt16
  token := token
  blockNumber := 0
  more := 0
  szx := 0
  contentFormat := 0
  size1 := 0
  payload := []

/-- What the parser does after its loop over the options. -/
def finishParse (packet : Bytes) (s : ParseState) : Outcome CoapBlock := do
  if !s.foundBlock1 then fail .format
  else if s.offset < packet.length then
    if s.offset + 1 = packet.length then fail .format
    else
      let payload ← readSlice packet (s.offset + 1) (packet.length - (s.offset + 1))
      return { s.block with payload }
  else return s.block

theorem coapParseBlock1_cons (first code idHigh idLow : UInt8) (rest : Bytes) :
    coapParseBlock1 (first :: code :: idHigh :: idLow :: rest) =
      if first >>> 6 ≠ 1 ∨ first &&& 0x0f > 8 then fail .format
      else if rest.length < (first &&& 0x0f).toNat then fail .format
      else
        parseOptions (first :: code :: idHigh :: idLow :: rest) (rest.length + 5)
          ⟨4 + (first &&& 0x0f).toNat, 0, false,
            headerBlock first code idHigh idLow (rest.take (first &&& 0x0f).toNat)⟩ >>=
          finishParse (first :: code :: idHigh :: idLow :: rest) := by
  have hlen : (first :: code :: idHigh :: idLow :: rest).length = rest.length + 4 := rfl
  rw [coapParseBlock1, if_neg (by omega)]
  simp only [readAt_of_lt, hlen, Nat.zero_lt_succ, List.getElem_cons_zero, ok_bind]
  by_cases hfirst : first >>> 6 ≠ 1 ∨ first &&& 0x0f > 8
  · rw [if_pos hfirst, if_pos hfirst]
  · rw [if_neg hfirst, if_neg hfirst]
    simp only [readAt, List.getElem?_cons_succ, List.getElem?_cons_zero, ok_bind]
    by_cases htoken : rest.length < (first &&& 0x0f).toNat
    · rw [if_pos htoken, if_pos (by omega)]
    · rw [if_neg htoken, if_neg (by omega), readSlice_of_le (by omega), ok_bind]
      rfl

theorem finishParse_eq_ok_iff {packet tail : Bytes} {s : ParseState} {block : CoapBlock}
    (hle : s.offset ≤ packet.length) (hdrop : packet.drop s.offset = tail)
    (htail : tail = [] ∨ ∃ payload, tail = 0xff :: payload) (hempty : s.block.payload = []) :
    finishParse packet s = .ok block ↔
      s.foundBlock1 = true ∧
        ∃ payload, tail = payloadTrailer payload ∧ block = { s.block with payload } := by
  have hlen : (packet.drop s.offset).length = tail.length := by rw [hdrop]
  rw [List.length_drop] at hlen
  unfold finishParse
  cases hfound : s.foundBlock1 with
  | false => simp
  | true =>
    simp only [Bool.not_true, Bool.false_eq_true, if_false, true_and]
    rcases htail with rfl | ⟨payload, rfl⟩
    · rw [if_neg (by simp only [List.length_nil] at hlen; omega)]
      constructor
      · intro h
        have hb : s.block = block := by simpa [pure, Except.pure] using h
        exact ⟨[], rfl, by rw [← hb, ← hempty]⟩
      · rintro ⟨payload, hp, rfl⟩
        have hnil : payload = [] := by
          by_contra hne
          simp [payloadTrailer, hne] at hp
        rw [hnil, ← hempty]
        rfl
    · simp only [List.length_cons] at hlen
      rw [if_pos (by omega)]
      by_cases hnil : payload = []
      · subst hnil
        rw [if_pos (by simp only [List.length_nil] at hlen; omega)]
        simp only [fail_ne_ok, false_iff, not_exists, not_and]
        intro payload hp
        by_cases hp' : payload = []
        · simp [payloadTrailer, hp'] at hp
        · simp [payloadTrailer, hp', Ne.symm hp'] at hp
      · have hpos : 0 < payload.length := List.length_pos_of_ne_nil hnil
        have hrest : packet.drop (s.offset + 1) = payload := drop_succ_of_drop hdrop
        have hread : (readSlice packet (s.offset + 1) (packet.length - (s.offset + 1)) :
            Outcome Bytes) = .ok payload := by
          rw [readSlice_of_le (by omega), hrest, List.take_of_length_le (by omega)]
        rw [if_neg (by omega), hread, ok_bind]
        constructor
        · intro h
          have hb : { s.block with payload } = block := by simpa [pure, Except.pure] using h
          exact ⟨payload, by simp [payloadTrailer, hnil], hb.symm⟩
        · rintro ⟨payload', hp, rfl⟩
          have hne : payload' ≠ [] := by
            intro h
            simp [payloadTrailer, h] at hp
          have heq : payload = payload' := by simpa [payloadTrailer, hne] using hp
          rw [heq]
          rfl

theorem after_block (m : Message) (offset : ℕ) (found : Bool) :
    { ((ParseState.mk offset 0 found
        (headerBlock m.first m.code m.idHigh m.idLow m.token)).after m.options).block with
      payload := m.payload } = blockOf m := by
  have h := foldl_applyOption (headerBlock m.first m.code m.idHigh m.idLow m.token)
    (numbered 0 m.options) rfl
  simp only [ParseState.after]
  rw [h]
  simp only [headerBlock, blockOf, messageId_eq]

/-- The parser accepts exactly the Block1 requests, with their fields. -/
theorem coapParseBlock1_eq_ok_iff (packet : Bytes) (block : CoapBlock) :
    coapParseBlock1 packet = .ok block ↔
      ∃ m : Message, packet = m.bytes ∧ Block1Request m ∧ block = blockOf m := by
  constructor
  · intro h
    rcases packet with _ | ⟨first, _ | ⟨code, _ | ⟨idHigh, _ | ⟨idLow, rest⟩⟩⟩⟩
    · simp [coapParseBlock1] at h
    · simp [coapParseBlock1] at h
    · simp [coapParseBlock1] at h
    · simp [coapParseBlock1] at h
    rw [coapParseBlock1_cons] at h
    split at h
    · simp at h
    rename_i hfirst
    split at h
    · simp at h
    rename_i htoken
    simp only [not_or, ne_eq, not_not, gt_iff_lt, UInt8.not_lt] at hfirst
    set tokenLength := (first &&& 0x0f).toNat with htl
    have htl8 : tokenLength ≤ 8 := UInt8.le_iff_toNat_le.mp hfirst.2
    rw [bind_eq_ok_iff] at h
    obtain ⟨s, hs, h⟩ := h
    have hle : 4 + tokenLength ≤ (first :: code :: idHigh :: idLow :: rest).length := by
      simp only [List.length_cons]
      omega
    rw [parseOptions_eq_ok_iff _ _ hle (by simp only [List.length_cons]; omega)] at hs
    obtain ⟨options, tail, hdrop, htail, hadm, hs⟩ := hs
    have hle' := add_length_le_of_drop hle hdrop
    have hdrop' := drop_add_of_drop hdrop
    rw [hs, finishParse_eq_ok_iff hle' hdrop' htail
      (by simp only [ParseState.after]; rw [foldl_applyOption _ _ rfl]; rfl)] at h
    obtain ⟨hfound, payload, rfl, hb⟩ := h
    refine ⟨⟨first, code, idHigh, idLow, rest.take tokenLength, options, payload⟩, ?_, ?_, ?_⟩
    · have hsplit : rest.drop tokenLength = optionStream options ++ payloadTrailer payload := by
        rw [← hdrop, Nat.add_comm 4]
        rfl
      simp only [Message.bytes, ← hsplit, List.take_append_drop]
    · have hlen : (rest.take tokenLength).length = tokenLength := by
        rw [List.length_take]
        omega
      refine ⟨⟨hfirst.1, hlen, hlen.le.trans htl8, fun o ho => (hadm o ho).1⟩,
        fun o ho => (hadm o ho).2, ?_⟩
      simpa [ParseState.after] using hfound
    · rw [hb]
      exact after_block ⟨first, code, idHigh, idLow, rest.take tokenLength, options, payload⟩ _ _
  · rintro ⟨m, rfl, hm, rfl⟩
    obtain ⟨⟨hversion, hlen, hlen8, hnumbers⟩, hadm, hblock1⟩ := hm
    rw [Message.bytes, coapParseBlock1_cons]
    have hsmall : ¬(m.first >>> 6 ≠ 1 ∨ m.first &&& 0x0f > 8) := by
      rw [not_or, not_not]
      refine ⟨hversion, ?_⟩
      rw [gt_iff_lt, UInt8.lt_iff_toNat_lt, ← hlen]
      exact Nat.not_lt.mpr hlen8
    rw [if_neg hsmall, if_neg (by rw [← hlen, List.length_append]; omega), ← hlen, List.take_left]
    have hle : 4 + m.token.length ≤ (m.first :: m.code :: m.idHigh :: m.idLow ::
        (m.token ++ (optionStream m.options ++ payloadTrailer m.payload))).length := by
      simp only [List.length_cons, List.length_append]
      omega
    have hdrop : (m.first :: m.code :: m.idHigh :: m.idLow ::
        (m.token ++ (optionStream m.options ++ payloadTrailer m.payload))).drop
          (4 + m.token.length) = optionStream m.options ++ payloadTrailer m.payload := by
      rw [Nat.add_comm 4]
      exact List.drop_left
    have htail : payloadTrailer m.payload = [] ∨ ∃ p, payloadTrailer m.payload = 0xff :: p := by
      unfold payloadTrailer
      split
      · exact Or.inl rfl
      · exact Or.inr ⟨_, rfl⟩
    have hs := (parseOptions_eq_ok_iff ((m.token ++ (optionStream m.options ++
      payloadTrailer m.payload)).length + 5) ⟨4 + m.token.length, 0, false,
      headerBlock m.first m.code m.idHigh m.idLow m.token⟩ hle
      (by simp only [List.length_cons]; omega)).mpr
        ⟨m.options, _, hdrop, htail, fun o ho => ⟨hnumbers o ho, hadm o ho⟩, rfl⟩
    rw [hs, ok_bind]
    apply (finishParse_eq_ok_iff (add_length_le_of_drop hle hdrop) (drop_add_of_drop hdrop) htail
      (by simp only [ParseState.after]; rw [foldl_applyOption _ _ rfl]; rfl)).mpr
    refine ⟨?_, m.payload, rfl, (after_block m _ _).symm⟩
    simpa [ParseState.after] using hblock1

/-- What holds of zero and of every value of a number holds of the last one. -/
theorem lastValue_of_forall {P : ℕ → Prop} {number : ℕ} {options : List (ℕ × Bytes)} (hzero : P 0)
    (h : ∀ o ∈ options, o.1 = number → P (wordValue o.2)) : P (lastValue number options) := by
  induction options using List.reverseRecOn with
  | nil => exact hzero
  | append_singleton options o ih =>
    rw [lastValue_concat]
    split
    · rename_i hnumber
      exact h o (by simp) hnumber
    · exact ih fun p hp => h p (by simp [hp])

theorem lastValue_lt {number width : ℕ} {options : List (ℕ × Bytes)}
    (h : ∀ o ∈ options, o.1 = number → o.2.length ≤ width) :
    lastValue number options < 256 ^ width := by
  refine lastValue_of_forall (P := (· < 256 ^ width)) (Nat.pow_pos (by decide)) ?_
  intro o ho hnumber
  exact (wordValue_lt o.2).trans_le (Nat.pow_le_pow_right (by decide) (h o ho hnumber))

/-- A parsed block number has 28 bits, and a parsed more flag one. -/
theorem parsed_bounds {packet : Bytes} {block : CoapBlock}
    (h : coapParseBlock1 packet = .ok block) :
    block.blockNumber.toNat < 2 ^ 28 ∧ (block.more = 0 ∨ block.more = 1) := by
  obtain ⟨m, -, hrequest, rfl⟩ := (coapParseBlock1_eq_ok_iff packet block).mp h
  have hlt : lastValue 27 (numbered 0 m.options) < 256 ^ 4 := by
    apply lastValue_lt
    intro o ho hnumber
    exact (hrequest.admissible o ho).1 (Or.inr (Or.inl hnumber))
  simp only [blockOf]
  generalize lastValue 27 (numbered 0 m.options) = value at hlt ⊢
  constructor
  · rw [UInt32.toNat_ofNat']
    omega
  · rcases Nat.mod_two_eq_zero_or_one (value / 8) with hmod | hmod
    · exact Or.inl (by rw [hmod]; rfl)
    · exact Or.inr (by rw [hmod]; rfl)

/-- The parser never reads outside the packet. -/
theorem coapParseBlock1_ne_fault (packet : Bytes) : coapParseBlock1 packet ≠ .error .fault := by
  rcases packet with _ | ⟨first, _ | ⟨code, _ | ⟨idHigh, _ | ⟨idLow, rest⟩⟩⟩⟩
  · simp [coapParseBlock1]
  · simp [coapParseBlock1]
  · simp [coapParseBlock1]
  · simp [coapParseBlock1]
  rw [coapParseBlock1_cons]
  split
  · simp
  split
  · simp
  have hle : 4 + (first &&& 0x0f).toNat ≤ (first :: code :: idHigh :: idLow :: rest).length := by
    simp only [List.length_cons]
    omega
  have hturns : (first :: code :: idHigh :: idLow :: rest).length - (4 + (first &&& 0x0f).toNat) <
      rest.length + 5 := by
    simp only [List.length_cons]
    omega
  refine bind_ne_fault (parseOptions_ne_fault hle hturns) ?_
  intro s _
  unfold finishParse
  split
  · simp
  split
  · split
    · simp
    · rw [readSlice_of_le (by omega), ok_bind]
      simp [pure, Except.pure]
  · simp [pure, Except.pure]

/-- The parser reads only inside the packet, on every packet, and accepts exactly
the Block1 requests; the block it returns has the fields of the request. -/
theorem coapParseBlock1_accepts_requests :
    (∀ packet : Bytes, coapParseBlock1 packet ≠ .error .fault) ∧
    ∀ (packet : Bytes) (block : CoapBlock), coapParseBlock1 packet = .ok block ↔
      ∃ m : Message, packet = m.bytes ∧ Block1Request m ∧ block = blockOf m :=
  ⟨coapParseBlock1_ne_fault, coapParseBlock1_eq_ok_iff⟩

end AdaptiveLowpan
