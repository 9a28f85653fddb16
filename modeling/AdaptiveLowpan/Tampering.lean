import AdaptiveLowpan.AadBinding
import AdaptiveLowpan.HashChain
import AdaptiveLowpan.RecordFrames

/-! # One changed byte

Each lane of the tag is a hash chain over header, additional data and ciphertext, whose
start depends on half of the key. A record of the same key is refused after a change of
any byte of it or of its additional data. Under another key that holds of the version and
of the tag, of which two lanes start from each half of the key. -/

namespace AdaptiveLowpan
open ByteWords HashChain Function

/-! ## The lanes of a tag -/

def fnvStep (hash : UInt32) (byte : UInt8) : UInt32 := (hash ^^^ byte.toUInt32) * 16777619

theorem xor_left_injective (a : UInt32) : Injective fun h => h ^^^ a := by
  intro h h' heq
  have hcancel := congrArg (· ^^^ a) heq
  simpa [UInt32.xor_assoc] using hcancel

theorem fnvStep_lossless : Lossless fnvStep := by
  -- the multiplier is odd, so it has an inverse
  have hinverse : (16777619 : UInt32) * 0x359c449b = 1 := by decide
  have hmul : Injective fun h : UInt32 => h * 16777619 := by
    intro h h' heq
    have hcancel := congrArg (· * (0x359c449b : UInt32)) heq
    simpa [UInt32.mul_assoc, hinverse] using hcancel
  constructor
  · intro byte
    exact hmul.comp (xor_left_injective byte.toUInt32)
  · intro h byte byte' heq
    have hxor : h ^^^ byte.toUInt32 = h ^^^ byte'.toUInt32 := hmul heq
    rw [UInt32.xor_comm h, UInt32.xor_comm h] at hxor
    exact UInt8.toUInt32_inj.mp (xor_left_injective h hxor)

def laneSeed (key : UInt64) (lane : ℕ) : UInt32 :=
  2166136261 ^^^ (key >>> UInt64.ofNat (lane % 2 * 32)).toUInt32 ^^^
    (UInt32.ofNat lane * 0x9e3779b9)

theorem tagLane_eq (key : UInt64) (header ciphertext aad : Bytes) (lane : ℕ) :
    tagLane key header ciphertext aad lane =
      (header ++ (aad ++ ciphertext)).foldl fnvStep (laneSeed key lane) := by
  rw [List.foldl_append, List.foldl_append]
  rfl

theorem laneSeed_eq {key key' : UInt64} {lane lane' : ℕ} (hhalf : lane % 2 = lane' % 2)
    (h : laneSeed key lane = laneSeed key' lane) : laneSeed key lane' = laneSeed key' lane' := by
  have hword : 2166136261 ^^^ (key >>> UInt64.ofNat (lane % 2 * 32)).toUInt32 =
      2166136261 ^^^ (key' >>> UInt64.ofNat (lane % 2 * 32)).toUInt32 := xor_left_injective _ h
  rw [laneSeed, laneSeed, ← hhalf, hword]

theorem slice_makeTag (key : UInt64) (header ciphertext aad : Bytes) {lane : ℕ} (h : lane < 4) :
    ((makeTag key header ciphertext aad).drop (4 * lane)).take 4 =
      writeU32Be (tagLane key header ciphertext aad lane) := by
  have hcases : lane = 0 ∨ lane = 1 ∨ lane = 2 ∨ lane = 3 := by omega
  rcases hcases with rfl | rfl | rfl | rfl <;> rfl

/-- The tags of two keys over the same data do not differ in exactly one byte. -/
theorem not_changesAt_makeTag (key key' : UInt64) (header ciphertext aad : Bytes) (i : ℕ) :
    ¬ChangesAt i (makeTag key header ciphertext aad) (makeTag key' header ciphertext aad) := by
  intro h
  have hi := h.lt_length
  rw [length_makeTag] at hi
  -- the other lane of the same half of the key agrees
  have hother : (i / 4 + 2) % 4 < 4 := Nat.mod_lt _ (by decide)
  have hslice := h.slice_eq (k := 4 * ((i / 4 + 2) % 4)) (n := 4) (by omega)
  rw [slice_makeTag _ _ _ _ hother, slice_makeTag _ _ _ _ hother] at hslice
  have hlane := writeU32Be_inj hslice
  rw [tagLane_eq, tagLane_eq] at hlane
  have hseed := laneSeed_eq (show (i / 4 + 2) % 4 % 2 = i / 4 % 2 by omega)
    (foldl_injective fnvStep_lossless _ hlane)
  -- so the changed lane does too
  have hsame : ((makeTag key header ciphertext aad).drop (4 * (i / 4))).take 4 =
      ((makeTag key' header ciphertext aad).drop (4 * (i / 4))).take 4 := by
    rw [slice_makeTag _ _ _ _ (by omega), slice_makeTag _ _ _ _ (by omega), tagLane_eq, tagLane_eq,
      hseed]
  have hbyte := congrArg (fun lane : Bytes => lane[i % 4]?) hsame
  rw [List.getElem?_take_of_lt (by omega), List.getElem?_take_of_lt (by omega),
    List.getElem?_drop, List.getElem?_drop, Nat.div_add_mod] at hbyte
  exact h.getElem?_ne hbyte

theorem makeTag_ne {key : UInt64} {header ciphertext aad header' ciphertext' aad' : Bytes} {i : ℕ}
    (h : ChangesAt i (header ++ (aad ++ ciphertext)) (header' ++ (aad' ++ ciphertext'))) :
    makeTag key header ciphertext aad ≠ makeTag key header' ciphertext' aad' := by
  intro htag
  have hslice := slice_makeTag key header ciphertext aad (show 0 < 4 by decide)
  rw [htag, slice_makeTag _ _ _ _ (by decide)] at hslice
  have hlane := writeU32Be_inj hslice
  rw [tagLane_eq, tagLane_eq] at hlane
  exact foldl_ne_of_changesAt fnvStep_lossless _ h hlane.symm

/-! ## Records -/

theorem testOpen_parts {test test' : TestContext} {header ciphertext tag aad plaintext : Bytes}
    {capacity : ℕ} (hheader : header.length = 9) (htag : tag.length = 16)
    (h : testOpen test (header ++ (ciphertext ++ tag)) aad capacity = (.ok plaintext, test')) :
    header.head? = some securityRecordVersion ∧
      makeTag test.rxKey header ciphertext aad = tag := by
  have hlength : (header ++ (ciphertext ++ tag)).length - securityOverhead = ciphertext.length := by
    rw [List.length_append, List.length_append, hheader, htag]
    change 9 + (ciphertext.length + 16) - 25 = ciphertext.length
    omega
  have htake : (header ++ (ciphertext ++ tag)).take 9 = header := List.take_left' hheader
  have hdrop : (header ++ (ciphertext ++ tag)).drop 9 = ciphertext ++ tag :=
    List.drop_left' hheader
  have hend : (header ++ (ciphertext ++ tag)).drop (9 + ciphertext.length) = tag := by
    rw [← List.drop_drop, hdrop, List.drop_left]
  have hhead : (header ++ (ciphertext ++ tag)).head? = header.head? := by
    rw [List.head?_append_of_ne_nil]
    rintro rfl
    simp at hheader
  rw [testOpen] at h
  split at h
  · simp [fail] at h
  rename_i hformat
  rw [not_or, not_not, hhead] at hformat
  simp only at h
  split at h
  · simp [fail] at h
  split at h
  · simp [fail] at h
  rw [hlength, show 1 + securitySequenceBytes = 9 from rfl, htake, hdrop, hend,
    List.take_left] at h
  split at h
  · simp [fail] at h
  · rename_i hreceived
    exact ⟨hformat.2, not_not.mp hreceived⟩

/-- A change of exactly one byte, in the record or in its additional data. -/
inductive Tampered (record aad : Bytes) : Bytes → Bytes → Prop
  | record {i : ℕ} {record' : Bytes} : ChangesAt i record record' → Tampered record aad record' aad
  | aad {i : ℕ} {aad' : Bytes} : ChangesAt i aad aad' → Tampered record aad record aad'

def OutsideLanes (record record' : Bytes) : Prop :=
  ∃ i, ChangesAt i record record' ∧ (i = 0 ∨ record.length - securityTagBytes ≤ i)

/-- A frame after the change of one byte: the version, a byte that the lanes run over, or
a byte of the tag is another one. -/
theorem changesAt_frame {sequence : UInt64} {ciphertext tag record' : Bytes} {i : ℕ}
    (h : ChangesAt i (frame sequence ciphertext tag) record') :
    (∃ header', ChangesAt i (recordHeader sequence) header' ∧
      record' = header' ++ (ciphertext ++ tag)) ∨
    (∃ j ciphertext', i = 9 + j ∧ ChangesAt j ciphertext ciphertext' ∧
      record' = recordHeader sequence ++ (ciphertext' ++ tag)) ∨
    ∃ j tag', ChangesAt j tag tag' ∧ record' = recordHeader sequence ++ (ciphertext ++ tag') := by
  rw [frame, List.append_assoc] at h
  rcases h.of_append with ⟨header', hheader, rfl⟩ | ⟨j, rest', hi, hrest, rfl⟩
  · exact Or.inl ⟨header', hheader, rfl⟩
  · rw [length_recordHeader] at hi
    rcases hrest.of_append with ⟨ciphertext', hciphertext, rfl⟩ | ⟨k, tag', -, htag, rfl⟩
    · exact Or.inr (Or.inl ⟨j, ciphertext', hi, hciphertext, rfl⟩)
    · exact Or.inr (Or.inr ⟨k, tag', htag, rfl⟩)

theorem testOpen_tampered_ne_ok {sender sender' receiver test' : TestContext}
    {plaintext aad record record' aad' opened : Bytes} {capacity capacity' : ℕ}
    (hseal : testSeal sender plaintext aad capacity = (.ok record, sender'))
    (htampered : Tampered record aad record' aad')
    (hkey : receiver.rxKey = sender.txKey ∨ OutsideLanes record record')
    (hopen : testOpen receiver record' aad' capacity' = (.ok opened, test')) : False := by
  obtain ⟨rfl, -⟩ := testSeal_eq_ok hseal
  rw [testRecord_eq] at htampered hkey
  have hheader := length_recordHeader sender.txSequence
  have htag := length_makeTag sender.txKey (recordHeader sender.txSequence)
    (applyStream sender.txKey sender.txSequence plaintext) aad
  have hlength := length_frame sender.txSequence
    (applyStream sender.txKey sender.txSequence plaintext) htag
  generalize applyStream sender.txKey sender.txSequence plaintext = ciphertext
    at htampered hkey htag hlength
  -- a byte that the lanes run over was sealed under the receiver's key
  have hsame {i : ℕ} (hlow : 0 < i) (hhigh : i < 9 + ciphertext.length)
      (hchange : ChangesAt i (frame sender.txSequence ciphertext (makeTag sender.txKey
        (recordHeader sender.txSequence) ciphertext aad)) record') :
      receiver.rxKey = sender.txKey := by
    refine hkey.resolve_right ?_
    rintro ⟨j, hj, hplace⟩
    obtain rfl := hchange.place_eq hj
    rw [hlength] at hplace
    change i = 0 ∨ ciphertext.length + 25 - 16 ≤ i at hplace
    omega
  cases htampered with
  | @record i _ hchange =>
    rcases changesAt_frame hchange with ⟨header', hat, rfl⟩ | ⟨j, ciphertext', hi, hat, rfl⟩ |
      ⟨j, tag', hat, rfl⟩
    · have hi := hat.lt_length
      obtain ⟨hversion, htags⟩ := testOpen_parts (hat.length_eq.symm.trans hheader) htag hopen
      rcases Nat.eq_zero_or_pos i with rfl | hpos
      · have hne := hat.getElem?_ne
        rw [← List.head?_eq_getElem?, ← List.head?_eq_getElem?, hversion] at hne
        exact hne rfl
      · rw [hsame hpos (by omega) hchange] at htags
        exact makeTag_ne (hat.append_right _) htags.symm
    · have hj := hat.lt_length
      obtain ⟨-, htags⟩ := testOpen_parts hheader htag hopen
      rw [hsame (by omega) (by omega) hchange] at htags
      exact makeTag_ne ((hat.append_left aad).append_left _) htags.symm
    · obtain ⟨-, rfl⟩ := testOpen_parts hheader (hat.length_eq.symm.trans htag) hopen
      exact not_changesAt_makeTag _ _ _ _ _ j hat
  | @aad i _ hchange =>
    have hrx : receiver.rxKey = sender.txKey := by
      refine hkey.resolve_right ?_
      rintro ⟨j, hj, -⟩
      exact hj.getElem?_ne rfl
    rw [frame, List.append_assoc] at hopen
    obtain ⟨-, htags⟩ := testOpen_parts hheader htag hopen
    rw [hrx] at htags
    exact makeTag_ne ((hchange.append_right ciphertext).append_left _) htags.symm

/-- A sealed record with one byte of it or of its additional data changed is refused by every
receiver with the sender's key, and where the byte is the version or in the tag by every
receiver; the receiver's context stays as it is. -/
theorem testOpen_tampered (sender sender' receiver : TestContext)
    (plaintext aad record record' aad' : Bytes) (capacity capacity' : ℕ)
    (hseal : testSeal sender plaintext aad capacity = (.ok record, sender'))
    (htampered : Tampered record aad record' aad')
    (hkey : receiver.rxKey = sender.txKey ∨ OutsideLanes record record') :
    (∀ opened, (testOpen receiver record' aad' capacity').1 ≠ .ok opened) ∧
      (testOpen receiver record' aad' capacity').2 = receiver := by
  cases hopen : testOpen receiver record' aad' capacity' with
  | mk outcome test' =>
    cases outcome with
    | ok opened => exact (testOpen_tampered_ne_ok hseal htampered hkey hopen).elim
    | error e =>
      refine ⟨?_, testOpen_error hopen⟩
      intro opened h
      cases h

/-- The first record of a client, with its last byte changed from 71 to 72. -/
theorem testOpen_tampered_lastByte :
    (∀ opened, (testOpen (securityTestPair 7).2 [1, 0, 0, 0, 0, 0, 0, 0, 0, 3, 214, 107, 220, 73,
        237, 152, 121, 205, 1, 20, 128, 98, 99, 56, 64, 48, 72] [3] 64).1 ≠ .ok opened) ∧
      (testOpen (securityTestPair 7).2 [1, 0, 0, 0, 0, 0, 0, 0, 0, 3, 214, 107, 220, 73,
        237, 152, 121, 205, 1, 20, 128, 98, 99, 56, 64, 48, 72] [3] 64).2 =
        (securityTestPair 7).2 :=
  testOpen_tampered (securityTestPair 7).1 { (securityTestPair 7).1 with txSequence := 1 }
    (securityTestPair 7).2 [1, 2] [3] [1, 0, 0, 0, 0, 0, 0, 0, 0, 3, 214, 107, 220, 73,
        237, 152, 121, 205, 1, 20, 128, 98, 99, 56, 64, 48, 71] _ _ 64 64 (by decide +kernel)
    (.record (i := 26) ⟨[1, 0, 0, 0, 0, 0, 0, 0, 0, 3, 214, 107, 220, 73,
        237, 152, 121, 205, 1, 20, 128, 98, 99, 56, 64, 48], 71, 72, [], by decide, rfl, rfl, rfl⟩)
    (Or.inl rfl)

/-! ## Under another key -/

def oneClient : TestContext := (securityTestPair 0x633c7be3e0837ae2).1

def otherServer : TestContext := (securityTestPair 0xe8e32e031c91df17).2

def clientRecord : Bytes := testRecord oneClient.txKey 0 [1, 2] [3]

/-- The server of the other pair opens the record with its third byte changed to 160. -/
theorem otherServer_opens :
    testSeal oneClient [1, 2] [3] 64 = (.ok clientRecord, { oneClient with txSequence := 1 }) ∧
      Tampered clientRecord [3] (clientRecord.set 2 160) [3] ∧
      (testOpen otherServer (clientRecord.set 2 160) [3] 64).1.isOk = true ∧
      (testOpen otherServer (clientRecord.set 2 160) [3] 64).2 ≠ otherServer := by
  refine ⟨by decide +kernel, ?_, by decide +kernel, by decide +kernel⟩
  exact .record (i := 2) ⟨clientRecord.take 2, 0, 160, clientRecord.drop 3, by decide, by decide +kernel,
    by decide +kernel, by decide +kernel⟩

end AdaptiveLowpan
