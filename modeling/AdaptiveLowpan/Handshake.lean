import AdaptiveLowpan.CStrings
import AdaptiveLowpan.OqsRecords

/-! # The establishment of an ML-KEM session

The key encapsulation, SHA-256 and HMAC-SHA-256 belong to other libraries and are
parameters. Whatever they do, the two ends of an established session agree. -/

namespace AdaptiveLowpan
open ByteWords CheckedMemory

/-- SHA-256, and HMAC-SHA-256 from a key and a message. Either may fail. -/
structure Sha256 where
  digest : Bytes → Option Bytes
  hmac : Bytes → Bytes → Option Bytes

def Sha256.extract (sha : Sha256) (shared transcript : Bytes) : Option Bytes := do
  let salt ← sha.digest transcript
  sha.hmac salt shared

def expandInfo (label : String) : Bytes := ascii label ++ [1]

theorem length_take_32 {output : Bytes} (h : ¬output.length < 32) :
    (output.take 32).length = 32 := by
  rw [List.length_take]
  omega

def hkdfExpand (sha : Sha256) (shared transcript : Bytes) (label : String) : Outcome Derived :=
  if (expandInfo label).length > 96 then fail .range
  else
    match sha.extract shared transcript with
    | none => fail .crypto
    | some prk =>
      match sha.hmac prk (expandInfo label) with
      | none => fail .crypto
      | some output =>
        if h : output.length < 32 then fail .crypto
        else .ok ⟨output.take 32, length_take_32 h⟩

structure Kem where
  methodName : Bytes
  lengthPublicKey : ℕ
  lengthSecretKey : ℕ
  lengthCiphertext : ℕ
  lengthSharedSecret : ℕ
  keypair : Option (Bytes × Bytes)
  encaps : Bytes → Option (Bytes × Bytes)
  decaps : Bytes → Bytes → Option Bytes

structure KemInfo where
  publicKeyBytes : ℕ
  secretKeyBytes : ℕ
  ciphertextBytes : ℕ
  sharedSecretBytes : ℕ
  algorithm : Bytes

def mlKem512 : Bytes := ascii "ML-KEM-512"

/-- What the two ends derive their keys from: the shared secret and the ciphertext. -/
def Kem.agree (kem : Kem) : Option (Bytes × Bytes) := do
  let (publicKey, secretKey) ← kem.keypair
  let (ciphertext, clientShared) ← kem.encaps publicKey
  let serverShared ← kem.decaps ciphertext secretKey
  if clientShared = serverShared then some (clientShared, ciphertext) else none

/-- `adaptive_security_oqs_pair`, where `OQS_KEM_new` knows some algorithms; a build without
the library knows none. -/
def securityOqsPair (kemNew : Bytes → Option Kem) (sha : Sha256) (algorithm : Option Bytes) :
    Outcome ((OqsContext × OqsContext) × KemInfo) :=
  match kemNew (algorithm.getD mlKem512) with
  | none => fail .unsupported
  | some kem =>
    match kem.agree with
    | none => fail .crypto
    | some (shared, ciphertext) => do
      let contexts ← initializeContexts (hkdfExpand sha shared ciphertext)
      return (contexts, ⟨kem.lengthPublicKey, kem.lengthSecretKey, kem.lengthCiphertext,
        kem.lengthSharedSecret, kem.methodName.take 31⟩)

theorem ok_ne_fault {α : Type} (a : α) : (.ok a : Outcome α) ≠ .error .fault := by
  intro h
  cases h

theorem hkdfExpand_ne_fault (sha : Sha256) (shared transcript : Bytes) (label : String) :
    hkdfExpand sha shared transcript label ≠ .error .fault := by
  rw [hkdfExpand]
  split
  · exact fail_ne_fault
  split
  · exact fail_ne_fault
  split
  · exact fail_ne_fault
  split
  · exact fail_ne_fault
  · exact ok_ne_fault _

theorem securityOqsPair_ne_fault (kemNew : Bytes → Option Kem) (sha : Sha256)
    (algorithm : Option Bytes) : securityOqsPair kemNew sha algorithm ≠ .error .fault := by
  rw [securityOqsPair]
  split
  · exact fail_ne_fault
  split
  · exact fail_ne_fault
  refine bind_ne_fault ?_ fun _ _ => ok_ne_fault _
  rw [initializeContexts]
  iterate 4 refine bind_ne_fault (hkdfExpand_ne_fault _ _ _ _) fun _ _ => ?_
  exact ok_ne_fault _

theorem securityOqsPair_cases {kemNew : Bytes → Option Kem} {sha : Sha256}
    {algorithm : Option Bytes} {contexts : OqsContext × OqsContext} {info : KemInfo}
    (h : securityOqsPair kemNew sha algorithm = .ok (contexts, info)) :
    ∃ kem shared transcript, kemNew (algorithm.getD mlKem512) = some kem ∧
      kem.agree = some (shared, transcript) ∧
      initializeContexts (hkdfExpand sha shared transcript) = .ok contexts := by
  rw [securityOqsPair] at h
  split at h
  · cases h
  rename_i kem hkem
  split at h
  · cases h
  rename_i shared transcript hagree
  rw [bind_eq_ok_iff] at h
  obtain ⟨contexts', hcontexts, h⟩ := h
  cases h
  exact ⟨kem, shared, transcript, hkem, hagree, hcontexts⟩

/-! ## Keys that meet -/

/-- SHA-256 has 32 bytes. -/
structure Sha256.Sized (sha : Sha256) : Prop where
  hmac : ∀ key message output, sha.hmac key message = some output → output.length = 32

/-- SHA-256 or HMAC-SHA-256 collides where two sessions derive one key: at the transcripts,
at the extraction from the shared secrets, or at the expansion of the labels to the key. -/
inductive KeyCollision (sha : Sha256) (shared transcript : Bytes) (label : String)
    (shared' transcript' : Bytes) (label' : String) (key : Bytes) : Prop
  | digest {salt : Bytes} (hne : transcript ≠ transcript') (h : sha.digest transcript = some salt)
      (h' : sha.digest transcript' = some salt)
  | extract {salt salt' prk : Bytes} (hsalt : sha.digest transcript = some salt)
      (hsalt' : sha.digest transcript' = some salt') (hne : (salt, shared) ≠ (salt', shared'))
      (h : sha.hmac salt shared = some prk) (h' : sha.hmac salt' shared' = some prk)
  | expand {prk prk' : Bytes} (hprk : sha.extract shared transcript = some prk)
      (hprk' : sha.extract shared' transcript' = some prk')
      (hne : (prk, expandInfo label) ≠ (prk', expandInfo label'))
      (h : sha.hmac prk (expandInfo label) = some key)
      (h' : sha.hmac prk' (expandInfo label') = some key)

variable {sha : Sha256} {shared transcript shared' transcript' : Bytes} {label label' : String}

theorem hkdfExpand_eq_ok {derived : Derived}
    (h : hkdfExpand sha shared transcript label = .ok derived) :
    ∃ prk output, sha.extract shared transcript = some prk ∧
      sha.hmac prk (expandInfo label) = some output ∧ derived.val = output.take 32 := by
  rw [hkdfExpand] at h
  split at h
  · cases h
  split at h
  · cases h
  rename_i prk hextract
  split at h
  · cases h
  rename_i output hexpand
  split at h
  · cases h
  cases h
  exact ⟨prk, output, hextract, hexpand, rfl⟩

/-- Inputs from which the same is extracted are the same, or collide. -/
theorem extract_inj {prk key : Bytes} (h : sha.extract shared transcript = some prk)
    (h' : sha.extract shared' transcript' = some prk) :
    (shared, transcript) = (shared', transcript') ∨
      KeyCollision sha shared transcript label shared' transcript' label' key := by
  rw [Sha256.extract, Option.bind_eq_bind, Option.bind_eq_some_iff] at h h'
  obtain ⟨salt, hsalt, hprk⟩ := h
  obtain ⟨salt', hsalt', hprk'⟩ := h'
  by_cases hkey : (salt, shared) = (salt', shared')
  · obtain ⟨rfl, rfl⟩ := Prod.ext_iff.mp hkey
    by_cases htranscript : transcript = transcript'
    · rw [htranscript]
      exact Or.inl rfl
    · exact Or.inr (.digest htranscript hsalt hsalt')
  · exact Or.inr (.extract hsalt hsalt' hkey hprk hprk')

/-- Equal derived bytes come from equal inputs, or from a collision. -/
theorem hkdfExpand_inj (hsha : sha.Sized) {derived : Derived}
    (h : hkdfExpand sha shared transcript label = .ok derived)
    (h' : hkdfExpand sha shared' transcript' label' = .ok derived) :
    ((shared, transcript) = (shared', transcript') ∧ expandInfo label = expandInfo label') ∨
      KeyCollision sha shared transcript label shared' transcript' label' derived.val := by
  obtain ⟨prk, output, hextract, hexpand, hval⟩ := hkdfExpand_eq_ok h
  obtain ⟨prk', output', hextract', hexpand', hval'⟩ := hkdfExpand_eq_ok h'
  rw [List.take_of_length_le (hsha.hmac _ _ _ hexpand).le] at hval
  rw [List.take_of_length_le (hsha.hmac _ _ _ hexpand').le] at hval'
  rw [← hval] at hexpand
  rw [← hval'] at hexpand'
  by_cases hinput : (prk, expandInfo label) = (prk', expandInfo label')
  · obtain ⟨rfl, hinfo⟩ := Prod.ext_iff.mp hinput
    exact (extract_inj hextract hextract').imp (fun hsame => ⟨hsame, hinfo⟩) id
  · exact Or.inr (.expand hextract hextract' hinput hexpand hexpand')

/-! ## Established sessions -/

/-- The records of an established session are delivered in both directions, whatever the
key encapsulation does. A key meets that of the other direction only at a collision of the
two labels, and the same key of another session only at a collision or if the sessions
have agreed on the same. -/
theorem securityOqsPair_separates {gcm : AesGcm} (hgcm : gcm.Correct) (hsha : sha.Sized)
    {kemNew kemNew' : Bytes → Option Kem} {algorithm algorithm' : Option Bytes}
    {contexts contexts' : OqsContext × OqsContext} {info info' : KemInfo}
    (h : securityOqsPair kemNew sha algorithm = .ok (contexts, info))
    (h' : securityOqsPair kemNew' sha algorithm' = .ok (contexts', info')) :
    DeliversInOrder (oqsProvider gcm) contexts.1 contexts.2 ∧
    DeliversInOrder (oqsProvider gcm) contexts.2 contexts.1 ∧
    ∃ kem kem' shared transcript shared' transcript',
      kemNew (algorithm.getD mlKem512) = some kem ∧ kem.agree = some (shared, transcript) ∧
      kemNew' (algorithm'.getD mlKem512) = some kem' ∧ kem'.agree = some (shared', transcript') ∧
      (contexts.1.txKey = contexts'.1.rxKey →
        KeyCollision sha shared transcript "adaptive/c2s/key" shared' transcript'
          "adaptive/s2c/key" contexts.1.txKey) ∧
      (contexts.1.txKey = contexts'.1.txKey → (shared, transcript) = (shared', transcript') ∨
        KeyCollision sha shared transcript "adaptive/c2s/key" shared' transcript'
          "adaptive/c2s/key" contexts.1.txKey) ∧
      (contexts.1.rxKey = contexts'.1.rxKey → (shared, transcript) = (shared', transcript') ∨
        KeyCollision sha shared transcript "adaptive/s2c/key" shared' transcript'
          "adaptive/s2c/key" contexts.1.rxKey) := by
  obtain ⟨kem, shared, transcript, hkem, hagree, hinit⟩ := securityOqsPair_cases h
  obtain ⟨kem', shared', transcript', hkem', hagree', hinit'⟩ := securityOqsPair_cases h'
  obtain ⟨c2sKey, s2cKey, c2sNonce, s2cNonce, hc2s, hs2c, rfl⟩ := initializeContexts_cases hinit
  obtain ⟨c2sKey', s2cKey', c2sNonce', s2cNonce', hc2s', hs2c', rfl⟩ :=
    initializeContexts_cases hinit'
  obtain ⟨hclient, hserver⟩ := deliversInOrder_pairedContexts hgcm c2sKey s2cKey c2sNonce s2cNonce
  refine ⟨hclient, hserver, kem, kem', shared, transcript, shared', transcript', hkem, hagree,
    hkem', hagree', ?_, ?_, ?_⟩
  · intro hmeet
    obtain rfl : c2sKey = s2cKey' := Subtype.ext hmeet
    rcases hkdfExpand_inj hsha hc2s hs2c' with ⟨-, hlabel⟩ | hcollision
    · exact absurd hlabel (by decide +kernel)
    · exact hcollision
  · intro hmeet
    obtain rfl : c2sKey = c2sKey' := Subtype.ext hmeet
    exact (hkdfExpand_inj hsha hc2s hc2s').imp_left And.left
  · intro hmeet
    obtain rfl : s2cKey = s2cKey' := Subtype.ext hmeet
    exact (hkdfExpand_inj hsha hs2c hs2c').imp_left And.left

section Sample

/-- A hash of 32 bytes that keeps the first bytes of the key and of the message. -/
def sampleSha : Sha256 where
  digest := fun message => some ((message ++ List.replicate 32 0).take 32)
  hmac := fun key message =>
    some ((key.take 8 ++ (message ++ List.replicate 24 0).take 24 ++ List.replicate 8 0).take 32)

theorem sampleSha_sized : sampleSha.Sized := by
  refine ⟨fun key message output h => ?_⟩
  cases h
  simp only [List.length_take, List.length_append, List.length_replicate]
  omega

/-- A key encapsulation with a fixed secret, whose ciphertext is the public key. -/
def sampleKem (secret : UInt8) : Kem where
  methodName := mlKem512
  lengthPublicKey := 1
  lengthSecretKey := 1
  lengthCiphertext := 1
  lengthSharedSecret := 1
  keypair := some ([secret], [secret])
  encaps := fun publicKey => some (publicKey, [secret])
  decaps := fun _ secretKey => some secretKey

def sampleInfo : KemInfo := ⟨1, 1, 1, 1, mlKem512⟩

def sampleSession (secret : UInt8) : OqsContext × OqsContext :=
  match securityOqsPair (fun _ => some (sampleKem secret)) sampleSha none with
  | .ok (contexts, _) => contexts
  | .error _ => samplePair

theorem securityOqsPair_separates_sample :
    DeliversInOrder (oqsProvider streamGcm) (sampleSession 1).1 (sampleSession 1).2 ∧
    DeliversInOrder (oqsProvider streamGcm) (sampleSession 1).2 (sampleSession 1).1 ∧
    ∃ kem kem' shared transcript shared' transcript',
      some (sampleKem 1) = some kem ∧ kem.agree = some (shared, transcript) ∧
      some (sampleKem 2) = some kem' ∧ kem'.agree = some (shared', transcript') ∧
      ((sampleSession 1).1.txKey = (sampleSession 2).1.rxKey →
        KeyCollision sampleSha shared transcript "adaptive/c2s/key" shared' transcript'
          "adaptive/s2c/key" (sampleSession 1).1.txKey) ∧
      ((sampleSession 1).1.txKey = (sampleSession 2).1.txKey →
        (shared, transcript) = (shared', transcript') ∨
          KeyCollision sampleSha shared transcript "adaptive/c2s/key" shared' transcript'
            "adaptive/c2s/key" (sampleSession 1).1.txKey) ∧
      ((sampleSession 1).1.rxKey = (sampleSession 2).1.rxKey →
        (shared, transcript) = (shared', transcript') ∨
          KeyCollision sampleSha shared transcript "adaptive/s2c/key" shared' transcript'
            "adaptive/s2c/key" (sampleSession 1).1.rxKey) :=
  securityOqsPair_separates streamGcm_correct sampleSha_sized
    (show securityOqsPair (fun _ => some (sampleKem 1)) sampleSha none =
      .ok (sampleSession 1, sampleInfo) from rfl)
    (show securityOqsPair (fun _ => some (sampleKem 2)) sampleSha none =
      .ok (sampleSession 2, sampleInfo) from rfl)

end Sample

end AdaptiveLowpan
