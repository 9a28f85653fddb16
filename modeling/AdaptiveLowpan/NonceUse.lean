import AdaptiveLowpan.RecordNumbers
import Mathlib.Data.List.Nodup

/-! # No nonce is used twice

The nonce of an encryption is the nonce base with the record's number added to its last
eight bytes, so different numbers give different nonces, and the peer, which has the same
base, finds the nonce from the number in the record. -/

namespace AdaptiveLowpan
open ByteWords CheckedMemory

/-! ## Nonces -/

/-- Adding different strings to the same one gives different results. -/
theorem zipWith_xor_inj {mask xs ys : Bytes} (hxs : xs.length = mask.length)
    (hys : ys.length = mask.length)
    (h : List.zipWith (· ^^^ ·) mask xs = List.zipWith (· ^^^ ·) mask ys) : xs = ys := by
  induction mask generalizing xs ys with
  | nil =>
    rw [List.length_eq_zero_iff.mp hxs, List.length_eq_zero_iff.mp hys]
  | cons m mask ih =>
    cases xs with
    | nil => cases hxs
    | cons x xs =>
      cases ys with
      | nil => cases hys
      | cons y ys =>
        rw [List.zipWith_cons_cons, List.zipWith_cons_cons, List.cons.injEq] at h
        have hhead : x = y := (UInt8.xor_right_inj m).mp h.1
        rw [hhead, ih (Nat.succ.inj hxs) (Nat.succ.inj hys) h.2]

theorem writeU64Be_inj {v w : UInt64} (h : writeU64Be v = writeU64Be w) : v = w := by
  have hread := congrArg (fun bytes => readU64Be (bytes ++ [])) h
  simpa only [readU64Be_writeU64Be] using hread

theorem makeNonce_inj {base : NonceBase} {v w : UInt64} (h : makeNonce base v = makeNonce base w) :
    v = w := by
  have hlen : (base.bytes.drop 4).length = 8 := by
    rw [List.length_drop, base.length_eq]
  rw [makeNonce, makeNonce] at h
  apply writeU64Be_inj
  apply zipWith_xor_inj _ _ (List.append_cancel_left h)
  · rw [length_writeU64Be, hlen]
  · rw [length_writeU64Be, hlen]

/-! ## What the cipher is given -/

structure Encryption where
  key : Bytes
  nonce : Bytes
  aad : Bytes
  plaintext : Bytes

structure Decryption where
  key : Bytes
  nonce : Bytes
  aad : Bytes
  ciphertext : Bytes
  tag : Bytes

/-- The encryption that a call of `oqs_seal` comes to past its capacity check. -/
def oqsEncryption (oqs : OqsContext) (plaintext aad : Bytes) (recordCapacity : ℕ) :
    Option Encryption :=
  if plaintext.length > intMax ∨ aad.length > intMax ∨ plaintext.length > recordCapacity ∨
      securityOverhead > recordCapacity - plaintext.length then none
  else some ⟨oqs.txKey, makeNonce oqs.txNonceBase oqs.txSequence,
    recordHeader oqs.txSequence ++ aad, plaintext⟩

/-- The decryption that a call of `oqs_open` comes to past its checks. -/
def oqsDecryption (oqs : OqsContext) (record aad : Bytes) (plaintextCapacity : ℕ) :
    Option Decryption :=
  let ciphertextLength := record.length - securityOverhead
  if record.length < securityOverhead ∨ record.head? ≠ some securityRecordVersion ∨
      aad.length > intMax then none
  else if oqs.rxInitialized ∧ recordSequence record ≤ oqs.rxHighest then none
  else if ciphertextLength > plaintextCapacity ∨ ciphertextLength > intMax then none
  else some ⟨oqs.rxKey, makeNonce oqs.rxNonceBase (recordSequence record),
    record.take (1 + securitySequenceBytes) ++ aad,
    (record.drop (1 + securitySequenceBytes)).take ciphertextLength,
    record.drop (1 + securitySequenceBytes + ciphertextLength)⟩

/-- What the provider does with the cipher: a seal is its encryption, with the number taken
before it, and an open fails before it comes to a decryption, or is that decryption. -/
structure CipherCalls (gcm : AesGcm) : Prop where
  sealing : ∀ oqs plaintext aad capacity, oqsSeal gcm oqs plaintext aad capacity =
    match oqsEncryption oqs plaintext aad capacity with
    | none => (fail .capacity, oqs)
    | some e => (match gcm.encrypt e.key e.nonce e.aad e.plaintext with
        | none => fail .crypto
        | some (ciphertext, tag) => .ok (frame oqs.txSequence ciphertext tag),
        { oqs with txSequence := oqs.txSequence + 1 })
  opening : ∀ oqs record aad capacity,
    (oqsDecryption oqs record aad capacity = none ∧
      ∃ e, oqsOpen gcm oqs record aad capacity = (fail e, oqs)) ∨
    ∃ d, oqsDecryption oqs record aad capacity = some d ∧
      oqsOpen gcm oqs record aad capacity =
        match gcm.decrypt d.key d.nonce d.aad d.ciphertext d.tag with
        | none => (fail .integrity, oqs)
        | some plaintext =>
          (.ok plaintext, { oqs with rxHighest := recordSequence record, rxInitialized := true })

theorem cipherCalls (gcm : AesGcm) : CipherCalls gcm where
  sealing := by
    intro oqs plaintext aad capacity
    rw [oqsSeal, oqsEncryption]
    split
    · rfl
    · simp only
      cases gcm.encrypt oqs.txKey (makeNonce oqs.txNonceBase oqs.txSequence)
        (recordHeader oqs.txSequence ++ aad) plaintext with
      | none => rfl
      | some result => rfl
  opening := by
    intro oqs record aad capacity
    rw [oqsOpen, oqsDecryption]
    by_cases hformat : record.length < securityOverhead ∨
        record.head? ≠ some securityRecordVersion ∨ aad.length > intMax
    · rw [if_pos hformat, if_pos hformat]
      exact Or.inl ⟨rfl, _, rfl⟩
    rw [if_neg hformat, if_neg hformat]
    by_cases hreplay : oqs.rxInitialized = true ∧ recordSequence record ≤ oqs.rxHighest
    · simp only [if_pos hreplay]
      exact Or.inl ⟨trivial, _, rfl⟩
    by_cases hfull : record.length - securityOverhead > capacity ∨
        record.length - securityOverhead > intMax
    · simp only [if_neg hreplay, if_pos hfull]
      exact Or.inl ⟨trivial, _, rfl⟩
    · simp only [if_neg hreplay, if_neg hfull]
      exact Or.inr ⟨_, rfl, rfl⟩

theorem oqsDecryption_nonce {oqs : OqsContext} {record aad : Bytes} {capacity : ℕ} {d : Decryption}
    (h : oqsDecryption oqs record aad capacity = some d) :
    d.nonce = makeNonce oqs.rxNonceBase (recordSequence record) := by
  rw [oqsDecryption] at h
  split at h
  · cases h
  split at h
  · cases h
  split at h
  · cases h
  · cases h
    rfl

/-! ## The two providers -/

def testNumbering : Numbering testProvider where
  sequence := TestContext.txSequence
  seal_refused := by
    intro c c' plaintext aad capacity h
    change testSeal c plaintext aad capacity = _ at h
    rw [testSeal] at h
    split at h
    · cases h
      rfl
    · cases h
  seal_taken := by
    intro c c' plaintext aad capacity r h hr
    change testSeal c plaintext aad capacity = _ at h
    rw [testSeal] at h
    split at h
    · cases h
      exact absurd rfl hr
    · cases h
      rfl
  seal_number := by
    intro c c' plaintext aad capacity record h
    exact (testLayer.seal_ok h).2.1
  open_keeps := by
    intro c c' record aad capacity r h
    exact (testLayer.open_keeps h).2.2

section Oqs

variable (gcm : AesGcm)

theorem oqsOpen_keeps {gcm : AesGcm} {oqs oqs' : OqsContext} {record aad : Bytes} {capacity : ℕ}
    {r : Outcome Bytes} (h : oqsOpen gcm oqs record aad capacity = (r, oqs')) :
    oqs'.txKey = oqs.txKey ∧ oqs'.txNonceBase = oqs.txNonceBase ∧
      oqs'.rxNonceBase = oqs.rxNonceBase ∧ oqs'.txSequence = oqs.txSequence := by
  cases r with
  | error e =>
    obtain rfl := oqsOpen_error h
    exact ⟨rfl, rfl, rfl, rfl⟩
  | ok plaintext =>
    obtain rfl := oqsOpen_eq_ok h
    exact ⟨rfl, rfl, rfl, rfl⟩

/-- The AES-256-GCM provider numbers its records, whatever the cipher does. -/
def oqsNumbering : Numbering (oqsProvider gcm) where
  sequence := OqsContext.txSequence
  seal_refused := by
    intro c c' plaintext aad capacity h
    change oqsSeal gcm c plaintext aad capacity = _ at h
    rw [(cipherCalls gcm).sealing] at h
    split at h
    · cases h
      rfl
    · have hresult := congrArg Prod.fst h
      simp only at hresult
      split at hresult
      · cases hresult
      · cases hresult
  seal_taken := by
    intro c c' plaintext aad capacity r h hr
    change oqsSeal gcm c plaintext aad capacity = _ at h
    rw [(cipherCalls gcm).sealing] at h
    split at h
    · cases h
      exact absurd rfl hr
    · cases h
      rfl
  seal_number := by
    intro c c' plaintext aad capacity record h
    obtain ⟨-, -, -, ciphertext, tag, -, rfl⟩ := oqsSeal_eq_ok h
    exact recordSequence_frame _ _
  open_keeps := by
    intro c c' record aad capacity r h
    exact (oqsOpen_keeps h).2.2.2

def SealAttempt.encryption (attempt : SealAttempt OqsContext) : Option Encryption :=
  oqsEncryption attempt.context attempt.plaintext attempt.aad attempt.recordCapacity

theorem SealAttempt.encryption_eq_some {attempt : SealAttempt OqsContext} {e : Encryption}
    (h : attempt.encryption = some e) : e.key = attempt.context.txKey ∧
      e.nonce = makeNonce attempt.context.txNonceBase attempt.context.txSequence := by
  rw [SealAttempt.encryption, oqsEncryption] at h
  split at h
  · cases h
  · cases h
    exact ⟨rfl, rfl⟩

/-- An attempt comes to an encryption exactly past the capacity check. -/
theorem SealAttempt.passed_eq {attempt : SealAttempt OqsContext}
    (h : attempt.outcome = (oqsSeal gcm attempt.context attempt.plaintext attempt.aad
      attempt.recordCapacity).1) : attempt.passed = attempt.encryption.isSome := by
  rw [(cipherCalls gcm).sealing] at h
  rw [passed, h, encryption]
  cases oqsEncryption attempt.context attempt.plaintext attempt.aad attempt.recordCapacity with
  | none => exact decide_eq_false (not_not.mpr rfl)
  | some e =>
    apply decide_eq_true
    simp only
    split
    · intro hcapacity
      cases hcapacity
    · intro hcapacity
      cases hcapacity

/-- The encryptions that a run of calls comes to, also those that fail. -/
def sessionEncryptions (oqs : OqsContext) (calls : List SessionCall) : List Encryption :=
  (sessionRun (oqsProvider gcm) oqs calls).1.filterMap (·.encryption)

theorem securityOpen_oqs_keeps (oqs : OqsContext) (record : Option Bytes) (aad : Bytes)
    (capacity : ℕ) :
    (securityOpen (oqsProvider gcm) oqs record aad capacity).2.txKey = oqs.txKey ∧
      (securityOpen (oqsProvider gcm) oqs record aad capacity).2.txNonceBase = oqs.txNonceBase ∧
      (securityOpen (oqsProvider gcm) oqs record aad capacity).2.rxNonceBase =
        oqs.rxNonceBase := by
  cases record with
  | none => exact ⟨rfl, rfl, rfl⟩
  | some record =>
    have hopen : oqsOpen gcm oqs record aad capacity = (_, _) := rfl
    obtain ⟨hkey, htx, hrx, -⟩ := oqsOpen_keeps hopen
    exact ⟨hkey, htx, hrx⟩

/-- The keys and nonce bases of a session never change, and an attempt is a call of
`oqs_seal` on a context with those of the session. -/
theorem sessionRun_oqs (oqs : OqsContext) (calls : List SessionCall) :
    (∀ attempt ∈ (sessionRun (oqsProvider gcm) oqs calls).1,
      attempt.context.txKey = oqs.txKey ∧ attempt.context.txNonceBase = oqs.txNonceBase ∧
        attempt.outcome = (oqsSeal gcm attempt.context attempt.plaintext attempt.aad
          attempt.recordCapacity).1) ∧
      (sessionRun (oqsProvider gcm) oqs calls).2.rxNonceBase = oqs.rxNonceBase := by
  induction calls generalizing oqs with
  | nil =>
    constructor
    · intro attempt hmem
      cases hmem
    · rfl
  | cons call calls ih =>
    cases call with
    | opening record aad capacity =>
      obtain ⟨hattempts, hlast⟩ := ih (securityOpen (oqsProvider gcm) oqs record aad capacity).2
      obtain ⟨hkey, htx, hrx⟩ := securityOpen_oqs_keeps gcm oqs record aad capacity
      constructor
      · intro attempt hmem
        obtain ⟨hkey', htx', houtcome⟩ := hattempts attempt hmem
        exact ⟨hkey'.trans hkey, htx'.trans htx, houtcome⟩
      · exact hlast.trans hrx
    | sealing plaintext aad capacity =>
      obtain ⟨hattempts, hlast⟩ := ih (oqsSeal gcm oqs plaintext aad capacity).2
      have hkept : ∃ sequence, (oqsSeal gcm oqs plaintext aad capacity).2 =
          { oqs with txSequence := sequence } := oqsSeal_keeps rfl
      obtain ⟨sequence, hafter⟩ := hkept
      constructor
      · intro attempt hmem
        rcases List.mem_cons.mp hmem with rfl | hmem
        · exact ⟨rfl, rfl, rfl⟩
        · obtain ⟨hkey', htx', houtcome⟩ := hattempts attempt hmem
          rw [hafter] at hkey' htx'
          exact ⟨hkey', htx', houtcome⟩
      · exact hlast.trans (by rw [hafter])

theorem nonce_sessionEncryptions (oqs : OqsContext) (calls : List SessionCall) :
    (sessionEncryptions gcm oqs calls).map (·.nonce) =
      ((passedSeals (oqsProvider gcm) oqs calls).map (fun attempt =>
        (oqsNumbering gcm).sequence attempt.context)).map (makeNonce oqs.txNonceBase) := by
  have hattempts := (sessionRun_oqs gcm oqs calls).1
  rw [sessionEncryptions, passedSeals]
  generalize (sessionRun (oqsProvider gcm) oqs calls).1 = attempts at hattempts
  induction attempts with
  | nil => rfl
  | cons attempt attempts ih =>
    have hrest := ih (fun later hmem => hattempts later (List.mem_cons_of_mem attempt hmem))
    obtain ⟨-, hbase, houtcome⟩ := hattempts attempt List.mem_cons_self
    have hpassed := attempt.passed_eq gcm houtcome
    cases hencryption : attempt.encryption with
    | none =>
      rw [hencryption] at hpassed
      rw [List.filterMap_cons_none hencryption, List.filter_cons_of_neg (by rw [hpassed]; decide)]
      exact hrest
    | some e =>
      rw [hencryption] at hpassed
      have hnonce := (SealAttempt.encryption_eq_some hencryption).2
      rw [hbase] at hnonce
      rw [List.filterMap_cons_some hencryption, List.filter_cons_of_pos hpassed]
      simp only [List.map_cons, hnonce]
      exact congrArg _ hrest

/-- The sealing end's nonces, as the other end derives them from the records: whatever the
two ends were called with before. -/
def DerivesNonces (sender peer : OqsContext) : Prop :=
  ∀ calls peerCalls : List SessionCall,
    ∀ attempt ∈ (sessionRun (oqsProvider gcm) sender calls).1, ∀ record,
      attempt.outcome = .ok record → ∃ e, attempt.encryption = some e ∧
        makeNonce (sessionRun (oqsProvider gcm) peer peerCalls).2.rxNonceBase
          (recordSequence record) = e.nonce ∧
        ∀ aad capacity d, oqsDecryption (sessionRun (oqsProvider gcm) peer peerCalls).2 record aad
          capacity = some d → d.nonce = e.nonce

theorem derivesNonces_of_base {sender peer : OqsContext}
    (h : sender.txNonceBase = peer.rxNonceBase) : DerivesNonces gcm sender peer := by
  intro calls peerCalls attempt hmem record hrecord
  obtain ⟨-, hbase, houtcome⟩ := (sessionRun_oqs gcm sender calls).1 attempt hmem
  have hpeer := (sessionRun_oqs gcm peer peerCalls).2
  have hpassed : attempt.encryption.isSome = true := by
    rw [← attempt.passed_eq gcm houtcome, SealAttempt.passed, hrecord]
    exact decide_eq_true (fun hfail => by cases hfail)
  obtain ⟨e, hencryption⟩ := Option.isSome_iff_exists.mp hpassed
  have hnonce := (SealAttempt.encryption_eq_some hencryption).2
  have hnumber : recordSequence record = attempt.context.txSequence := by
    apply (oqsNumbering gcm).seal_number
    exact Prod.ext (houtcome.symm.trans hrecord) rfl
  have hderived : makeNonce (sessionRun (oqsProvider gcm) peer peerCalls).2.rxNonceBase
      (recordSequence record) = e.nonce := by
    rw [hpeer, hnumber, hnonce, hbase, h]
  refine ⟨e, hencryption, hderived, ?_⟩
  intro aad capacity d hd
  exact (oqsDecryption_nonce hd).trans hderived

end Oqs

/-- In every run of fewer than `2 ^ 64` seals past the capacity check, whatever else is
called in between, the records of a session carry different numbers, and the AES-256-GCM
provider encrypts under its one key with different nonces, also when an encryption fails.
The two ends of an established session derive the same nonces. These are the arguments
that the cipher is called with. -/
theorem sessions_never_reuse_nonces :
    (∀ (test : TestContext) (calls : List SessionCall),
      (passedSeals testProvider test calls).length < 2 ^ 64 →
        ((producedRecords testProvider test calls).map recordSequence).Nodup) ∧
    (∀ (gcm : AesGcm) (oqs : OqsContext) (calls : List SessionCall),
      (passedSeals (oqsProvider gcm) oqs calls).length < 2 ^ 64 →
        ((producedRecords (oqsProvider gcm) oqs calls).map recordSequence).Nodup ∧
        ((sessionEncryptions gcm oqs calls).map (·.nonce)).Nodup ∧
        ∀ e ∈ sessionEncryptions gcm oqs calls, e.key = oqs.txKey) ∧
    (∀ (base : NonceBase) (v w : UInt64), makeNonce base v = makeNonce base w → v = w) ∧
    (∀ (gcm : AesGcm) (hkdfExpand : String → Outcome Derived) (client server : OqsContext),
      initializeContexts hkdfExpand = .ok (client, server) →
        DerivesNonces gcm client server ∧ DerivesNonces gcm server client) ∧
    ∀ gcm : AesGcm, CipherCalls gcm := by
  refine ⟨?_, ?_, ?_, ?_, cipherCalls⟩
  · intro test calls hcount
    exact testNumbering.nodup_producedRecords hcount
  · intro gcm oqs calls hcount
    refine ⟨(oqsNumbering gcm).nodup_producedRecords hcount, ?_, ?_⟩
    · rw [nonce_sessionEncryptions, (oqsNumbering gcm).numbers_passedSeals]
      apply List.Nodup.map
      · intro v w hsame
        exact makeNonce_inj hsame
      · exact nodup_numbersFrom hcount.le
    · intro e hmem
      obtain ⟨attempt, hattempt, hencryption⟩ := List.mem_filterMap.mp hmem
      exact (SealAttempt.encryption_eq_some hencryption).1.trans
        ((sessionRun_oqs gcm oqs calls).1 attempt hattempt).1
  · intro base v w hsame
    exact makeNonce_inj hsame
  · intro gcm hkdfExpand client server h
    obtain ⟨c2sKey, s2cKey, c2sNonce, s2cNonce, -, -, hpair⟩ := initializeContexts_cases h
    obtain ⟨rfl, rfl⟩ := Prod.ext_iff.mp hpair
    exact ⟨derivesNonces_of_base gcm rfl, derivesNonces_of_base gcm rfl⟩

/-- A seal, an open of a record of the other end, a seal that does not fit, and another
seal. -/
def sampleCalls : List SessionCall :=
  [.sealing [1, 2, 3] [9] 64, .opening (some sampleOqsRecord) [9] 64, .sealing [1, 2, 3] [9] 20,
    .sealing [4] [] 64]

theorem sessions_never_reuse_nonces_sample :
    ((producedRecords testProvider (securityTestPair 7).2 sampleCalls).map recordSequence).Nodup ∧
    ((sessionEncryptions streamGcm samplePair.2 sampleCalls).map (·.nonce)).Nodup ∧
    DerivesNonces streamGcm samplePair.1 samplePair.2 := by
  refine ⟨?_, ?_, ?_⟩
  · exact sessions_never_reuse_nonces.1 _ _ (by decide +kernel)
  · exact (sessions_never_reuse_nonces.2.1 _ _ _ (by decide +kernel)).2.1
  · exact (sessions_never_reuse_nonces.2.2.2.1 streamGcm sampleExpand samplePair.1 samplePair.2
      initializeContexts_sampleExpand).1

end AdaptiveLowpan
