import AdaptiveLowpan.SecurityTest

/-! # The ML-KEM and AES-256-GCM provider

AES-256-GCM and the key derivation belong to other libraries and are parameters
here; what this file embeds is the record layer around them. -/

namespace AdaptiveLowpan
open ByteWords

/-- The two directions of AES-256-GCM, from key, nonce and associated data. -/
structure AesGcm where
  encrypt : Bytes → Bytes → Bytes → Bytes → Option (Bytes × Bytes)
  decrypt : Bytes → Bytes → Bytes → Bytes → Bytes → Option Bytes

/-- AES-256-GCM keeps the length of the plaintext, writes a 16-byte tag, and
decrypts what it encrypted under the same key, nonce and associated data. -/
structure AesGcm.Correct (gcm : AesGcm) : Prop where
  lengths : ∀ key nonce aad plaintext ciphertext tag,
    gcm.encrypt key nonce aad plaintext = some (ciphertext, tag) →
      ciphertext.length = plaintext.length ∧ tag.length = securityTagBytes
  decrypt_encrypt : ∀ key nonce aad plaintext ciphertext tag,
    gcm.encrypt key nonce aad plaintext = some (ciphertext, tag) →
      gcm.decrypt key nonce aad ciphertext tag = some plaintext

structure NonceBase where
  bytes : Bytes
  length_eq : bytes.length = 12
  deriving DecidableEq

structure OqsContext where
  txKey : Bytes
  rxKey : Bytes
  txNonceBase : NonceBase
  rxNonceBase : NonceBase
  txSequence : UInt64
  rxHighest : UInt64
  rxInitialized : Bool
  deriving DecidableEq

/-- `make_nonce`: the sequence number is added to the last eight bytes. -/
def makeNonce (base : NonceBase) (sequence : UInt64) : Bytes :=
  base.bytes.take 4 ++ List.zipWith (· ^^^ ·) (base.bytes.drop 4) (writeU64Be sequence)

/-- `oqs_seal`. The sequence number is taken before the encryption, which may fail. -/
def oqsSeal (gcm : AesGcm) (oqs : OqsContext) (plaintext aad : Bytes) (recordCapacity : ℕ) :
    Outcome Bytes × OqsContext :=
  if plaintext.length > intMax ∨ aad.length > intMax ∨ plaintext.length > recordCapacity ∨
      securityOverhead > recordCapacity - plaintext.length then
    (fail .capacity, oqs)
  else
    let sequence := oqs.txSequence
    let oqs' := { oqs with txSequence := oqs.txSequence + 1 }
    let header := recordHeader sequence
    let nonce := makeNonce oqs.txNonceBase sequence
    match gcm.encrypt oqs.txKey nonce (header ++ aad) plaintext with
    | none => (fail .crypto, oqs')
    | some (ciphertext, tag) => (.ok (header ++ ciphertext ++ tag), oqs')

def oqsOpen (gcm : AesGcm) (oqs : OqsContext) (record aad : Bytes) (plaintextCapacity : ℕ) :
    Outcome Bytes × OqsContext :=
  if record.length < securityOverhead ∨ record.head? ≠ some securityRecordVersion ∨
      aad.length > intMax then
    (fail .format, oqs)
  else
    let sequence := recordSequence record
    if oqs.rxInitialized ∧ sequence ≤ oqs.rxHighest then (fail .replay, oqs)
    else
      let ciphertextLength := record.length - securityOverhead
      if ciphertextLength > plaintextCapacity ∨ ciphertextLength > intMax then
        (fail .capacity, oqs)
      else
        let header := record.take (1 + securitySequenceBytes)
        let ciphertext := (record.drop (1 + securitySequenceBytes)).take ciphertextLength
        let tag := record.drop (1 + securitySequenceBytes + ciphertextLength)
        let nonce := makeNonce oqs.rxNonceBase sequence
        match gcm.decrypt oqs.rxKey nonce (header ++ aad) ciphertext tag with
        | none => (fail .integrity, oqs)
        | some plaintext =>
          (.ok plaintext, { oqs with rxHighest := sequence, rxInitialized := true })

/-- The provider that `set_session` installs. -/
def oqsProvider (gcm : AesGcm) : SecurityProvider OqsContext where
  sealFn := oqsSeal gcm
  openFn := oqsOpen gcm
  overhead := securityOverhead

/-- The 32 bytes that `hkdf_expand` derives for a label. -/
abbrev Derived := { bytes : Bytes // bytes.length = 32 }

def Derived.nonceBase (derived : Derived) : NonceBase :=
  ⟨derived.val.take 12, by simp [derived.property]⟩

def initializeContexts (hkdfExpand : String → Outcome Derived) :
    Outcome (OqsContext × OqsContext) := do
  let c2sKey ← hkdfExpand "adaptive/c2s/key"
  let s2cKey ← hkdfExpand "adaptive/s2c/key"
  let c2sNonce ← hkdfExpand "adaptive/c2s/nonce"
  let s2cNonce ← hkdfExpand "adaptive/s2c/nonce"
  return (⟨c2sKey.val, s2cKey.val, c2sNonce.nonceBase, s2cNonce.nonceBase, 0, 0, false⟩,
    ⟨s2cKey.val, c2sKey.val, s2cNonce.nonceBase, c2sNonce.nonceBase, 0, 0, false⟩)

end AdaptiveLowpan
