import AdaptiveLowpan.RecordLayer
import AdaptiveLowpan.SecurityOqs

/-! # The two providers as record layers

Both providers frame a record the same way: a version byte, the big-endian sequence
number, the ciphertext and a sixteen-byte tag. What `open` cuts out of a frame is
what `seal` put in. -/

namespace AdaptiveLowpan
open ByteWords CheckedMemory

/-! ## Sequence numbers -/

theorem writeU64Be_eq (value : UInt64) : writeU64Be value = wordBytes 8 value.toNat := by
  have hbyte (k : ℕ) (hk : k < 64) :
      (value >>> UInt64.ofNat k).toUInt8 = UInt8.ofNat (value.toNat / 2 ^ k) := by
    apply UInt8.toNat_inj.mp
    have hmod : k % 2 ^ 64 % 64 = k := by omega
    rw [UInt64.toNat_toUInt8, UInt64.toNat_shiftRight, UInt64.toNat_ofNat',
      Nat.shiftRight_eq_div_pow, UInt8.toNat_ofNat', hmod]
  have hrange : List.range 8 = [0, 1, 2, 3, 4, 5, 6, 7] := rfl
  simp only [writeU64Be, hrange, List.map_cons, List.map_nil, wordBytes, Nat.div_div_eq_div_mul,
    List.nil_append, List.cons_append]
  rw [hbyte _ (by omega), hbyte _ (by omega), hbyte _ (by omega), hbyte _ (by omega),
    hbyte _ (by omega), hbyte _ (by omega), hbyte _ (by omega), hbyte _ (by omega)]
  simp only [Nat.reduceSub, Nat.reduceMul, Nat.reducePow, Nat.div_one]

@[simp] theorem length_writeU64Be (value : UInt64) : (writeU64Be value).length = 8 := by
  simp [writeU64Be]

theorem toNat_readU64Be (input : Bytes) : (readU64Be input).toNat = wordValue (input.take 8) := by
  unfold readU64Be
  have hlen : (input.take 8).length ≤ 8 := by
    rw [List.length_take]
    omega
  generalize input.take 8 = bytes at hlen
  induction bytes using List.reverseRecOn with
  | nil => rfl
  | append_singleton bytes byte ih =>
    simp only [List.length_append, List.length_singleton] at hlen
    have hlt := wordValue_lt bytes
    have hpow : 256 ^ bytes.length ≤ 256 ^ 7 := Nat.pow_le_pow_right (by omega) (by omega)
    have hb : byte.toNat < 2 ^ 8 := byte.toNat_lt
    have ih := ih (by omega)
    rw [List.foldl_append, List.foldl_cons, List.foldl_nil, wordValue_concat, ← ih]
    rw [← ih] at hlt
    generalize List.foldl (fun (value : UInt64) byte => (value <<< 8) ||| byte.toUInt64) 0 bytes = r
      at hlt
    have hs : (r <<< 8).toNat = 2 ^ 8 * r.toNat := by
      rw [UInt64.toNat_shiftLeft, Nat.shiftLeft_eq]
      simp
      omega
    rw [UInt64.toNat_or, hs, UInt8.toNat_toUInt64, ← Nat.two_pow_add_eq_or_of_lt hb]
    omega

theorem readU64Be_writeU64Be (value : UInt64) (rest : Bytes) :
    readU64Be (writeU64Be value ++ rest) = value := by
  have htake : (writeU64Be value ++ rest).take 8 = writeU64Be value :=
    List.take_left' (length_writeU64Be value)
  apply UInt64.toNat_inj.mp
  rw [toNat_readU64Be, htake, writeU64Be_eq, wordValue_wordBytes_of_lt value.toNat_lt]

/-! ## Frames -/

def frame (sequence : UInt64) (ciphertext tag : Bytes) : Bytes :=
  recordHeader sequence ++ ciphertext ++ tag

section Frame

variable (sequence : UInt64) (ciphertext : Bytes) {tag : Bytes}

@[simp] theorem length_recordHeader : (recordHeader sequence).length = 9 := by
  simp [recordHeader]

theorem length_frame (htag : tag.length = 16) :
    (frame sequence ciphertext tag).length = ciphertext.length + securityOverhead := by
  simp only [frame, List.length_append, length_recordHeader, htag]
  change 9 + ciphertext.length + 16 = ciphertext.length + 25
  omega

theorem recordSequence_frame : recordSequence (frame sequence ciphertext tag) = sequence := by
  have hdrop : (frame sequence ciphertext tag).drop 1 =
      writeU64Be sequence ++ (ciphertext ++ tag) := by
    simp [frame, recordHeader]
  rw [recordSequence, hdrop, readU64Be_writeU64Be]

theorem take_frame : (frame sequence ciphertext tag).take 9 = recordHeader sequence := by
  rw [frame, List.append_assoc]
  exact List.take_left' (length_recordHeader sequence)

theorem ciphertext_frame :
    ((frame sequence ciphertext tag).drop 9).take ciphertext.length = ciphertext := by
  have hdrop : (frame sequence ciphertext tag).drop 9 = ciphertext ++ tag := by
    rw [frame, List.append_assoc]
    exact List.drop_left' (length_recordHeader sequence)
  rw [hdrop, List.take_left]

theorem tag_frame : (frame sequence ciphertext tag).drop (9 + ciphertext.length) = tag := by
  have hlen : (recordHeader sequence ++ ciphertext).length = 9 + ciphertext.length := by
    rw [List.length_append, length_recordHeader]
  exact List.drop_left' hlen

end Frame

/-! ## The test provider -/

@[simp] theorem length_applyStream (key sequence : UInt64) (input : Bytes) :
    (applyStream key sequence input).length = input.length := by
  simp [applyStream]

theorem applyStream_applyStream (key sequence : UInt64) (input : Bytes) :
    applyStream key sequence (applyStream key sequence input) = input := by
  apply List.ext_getElem
  · simp
  · intro i h₁ h₂
    simp only [applyStream, List.getElem_mapIdx]
    rw [UInt8.xor_assoc, UInt8.xor_self, UInt8.xor_zero]

theorem length_makeTag (key : UInt64) (header ciphertext aad : Bytes) :
    (makeTag key header ciphertext aad).length = 16 := by
  simp [makeTag]

theorem testRecord_eq (key sequence : UInt64) (plaintext aad : Bytes) :
    testRecord key sequence plaintext aad = frame sequence (applyStream key sequence plaintext)
      (makeTag key (recordHeader sequence) (applyStream key sequence plaintext) aad) := rfl

theorem testSeal_eq_ok {test test' : TestContext} {plaintext aad record : Bytes} {capacity : ℕ}
    (h : testSeal test plaintext aad capacity = (.ok record, test')) :
    record = testRecord test.txKey test.txSequence plaintext aad ∧
      test' = { test with txSequence := test.txSequence + 1 } := by
  rw [testSeal] at h
  split at h
  · simp [fail] at h
  · cases h
    exact ⟨rfl, rfl⟩

theorem testSeal_keeps {test test' : TestContext} {plaintext aad : Bytes} {capacity : ℕ}
    {r : Outcome Bytes} (h : testSeal test plaintext aad capacity = (r, test')) :
    test'.txKey = test.txKey ∧ test'.rxKey = test.rxKey ∧ test'.rxHighest = test.rxHighest ∧
      test'.rxInitialized = test.rxInitialized := by
  rw [testSeal] at h
  split at h
  · cases h
    exact ⟨rfl, rfl, rfl, rfl⟩
  · cases h
    exact ⟨rfl, rfl, rfl, rfl⟩

theorem testOpen_error {test test' : TestContext} {record aad : Bytes} {capacity : ℕ}
    {e : Stop Failure} (h : testOpen test record aad capacity = (.error e, test')) :
    test' = test := by
  rw [testOpen] at h
  split at h
  · cases h
    rfl
  simp only at h
  split at h
  · cases h
    rfl
  split at h
  · cases h
    rfl
  split at h
  · cases h
    rfl
  · cases h

theorem testOpen_eq_ok {test test' : TestContext} {record aad plaintext : Bytes} {capacity : ℕ}
    (h : testOpen test record aad capacity = (.ok plaintext, test')) :
    test' = { test with rxHighest := recordSequence record, rxInitialized := true } := by
  rw [testOpen] at h
  split at h
  · simp [fail] at h
  simp only at h
  split at h
  · simp [fail] at h
  split at h
  · simp [fail] at h
  split at h
  · simp [fail] at h
  · cases h
    rfl

theorem testOpen_testRecord (test : TestContext) (sequence : UInt64) {plaintext : Bytes}
    (aad : Bytes) {capacity : ℕ} (hroom : plaintext.length ≤ capacity) :
    testOpen test (testRecord test.rxKey sequence plaintext aad) aad capacity =
      if test.rxInitialized ∧ sequence ≤ test.rxHighest then (fail .replay, test)
      else (.ok plaintext, { test with rxHighest := sequence, rxInitialized := true }) := by
  have htag := length_makeTag test.rxKey (recordHeader sequence)
    (applyStream test.rxKey sequence plaintext) aad
  have hlen := length_frame sequence (applyStream test.rxKey sequence plaintext) htag
  have hcipher := length_applyStream test.rxKey sequence plaintext
  rw [testRecord_eq, testOpen, if_neg (by
    rw [not_or, hlen]
    exact ⟨by omega, not_not.mpr rfl⟩)]
  simp only [recordSequence_frame]
  by_cases hreplay : test.rxInitialized = true ∧ sequence ≤ test.rxHighest
  · rw [if_pos hreplay, if_pos hreplay]
  · have hsub : (frame sequence (applyStream test.rxKey sequence plaintext)
        (makeTag test.rxKey (recordHeader sequence) (applyStream test.rxKey sequence plaintext)
          aad)).length - securityOverhead =
        (applyStream test.rxKey sequence plaintext).length := by omega
    rw [if_neg hreplay, if_neg hreplay, hsub, if_neg (by omega)]
    rw [show 1 + securitySequenceBytes = 9 from rfl, take_frame, ciphertext_frame, tag_frame,
      if_neg (not_not.mpr rfl), applyStream_applyStream]

def TestContext.highest (test : TestContext) : Option UInt64 :=
  if test.rxInitialized then some test.rxHighest else none

def testLayer : RecordLayer testProvider where
  Key := UInt64
  sealKey := TestContext.txKey
  openKey := TestContext.rxKey
  sequence := TestContext.txSequence
  highest := TestContext.highest
  IsRecord := fun key plaintext aad record =>
    ∃ sequence, record = testRecord key sequence plaintext aad
  seal_ok := by
    intro c c' plaintext aad capacity record h
    obtain ⟨rfl, rfl⟩ := testSeal_eq_ok h
    refine ⟨⟨c.txSequence, rfl⟩, ?_, rfl, ?_⟩
    · rw [testRecord_eq, recordSequence_frame]
    · rw [testRecord_eq, length_frame _ _ (length_makeTag _ _ _ _), length_applyStream]
      rfl
  seal_keeps := by
    intro c c' plaintext aad capacity r h
    obtain ⟨htx, hrx, hhigh, hinit⟩ := testSeal_keeps h
    exact ⟨htx, hrx, by simp only [TestContext.highest, hhigh, hinit]⟩
  open_keeps := by
    intro c c' record aad capacity r h
    cases r with
    | error e =>
      obtain rfl := testOpen_error h
      exact ⟨rfl, rfl, rfl⟩
    | ok plaintext =>
      obtain rfl := testOpen_eq_ok h
      exact ⟨rfl, rfl, rfl⟩
  open_fresh := by
    rintro c plaintext aad record capacity ⟨sequence, rfl⟩ hroom hfresh
    have hopen := testOpen_testRecord c sequence aad hroom
    rw [testRecord_eq, recordSequence_frame] at hfresh
    have hnew : ¬(c.rxInitialized = true ∧ sequence ≤ c.rxHighest) := by
      rintro ⟨hinit, hle⟩
      have hlt := hfresh c.rxHighest (by simp [TestContext.highest, hinit])
      exact UInt64.not_lt.mpr hle hlt
    rw [if_neg hnew] at hopen
    refine ⟨_, hopen, ?_⟩
    rw [testRecord_eq, recordSequence_frame]
    rfl
  open_replay := by
    rintro c plaintext aad record capacity h ⟨sequence, rfl⟩ hroom hh hle
    have hopen := testOpen_testRecord c sequence aad hroom
    rw [testRecord_eq, recordSequence_frame] at hle
    have hinit : c.rxInitialized = true ∧ c.rxHighest = h := by
      rw [TestContext.highest] at hh
      split at hh
      · rename_i hinit
        exact ⟨hinit, by simpa using hh⟩
      · simp at hh
    rw [if_pos ⟨hinit.1, hinit.2 ▸ hle⟩] at hopen
    exact hopen
  open_error := testOpen_error

end AdaptiveLowpan
