import AdaptiveLowpan.Security

/-! # The deterministic test provider -/

namespace AdaptiveLowpan
open ByteWords

structure TestContext where
  txKey : UInt64
  rxKey : UInt64
  txSequence : UInt64
  rxHighest : UInt64
  rxInitialized : Bool
  deriving DecidableEq

def mix64 (value : UInt64) : UInt64 :=
  let value := value ^^^ (value >>> 30)
  let value := value * 0xbf58476d1ce4e5b9
  let value := value ^^^ (value >>> 27)
  let value := value * 0x94d049bb133111eb
  value ^^^ (value >>> 31)

def streamByte (key sequence : UInt64) (index : ℕ) : UInt8 :=
  let block := mix64 (key ^^^ sequence ^^^ (UInt64.ofNat (index / 8) * 0x9e3779b97f4a7c15))
  (block >>> UInt64.ofNat (8 * (index % 8))).toUInt8

/-- The exclusive or of `input` with the key stream, which both directions use. -/
def applyStream (key sequence : UInt64) (input : Bytes) : Bytes :=
  input.mapIdx fun i byte => byte ^^^ streamByte key sequence i

def fnv1a (hash : UInt32) (data : Bytes) : UInt32 :=
  data.foldl (fun hash byte => (hash ^^^ byte.toUInt32) * 16777619) hash

def tagLane (key : UInt64) (header ciphertext aad : Bytes) (lane : ℕ) : UInt32 :=
  let hash := 2166136261 ^^^ (key >>> UInt64.ofNat (lane % 2 * 32)).toUInt32 ^^^
    (UInt32.ofNat lane * 0x9e3779b9)
  fnv1a (fnv1a (fnv1a hash header) aad) ciphertext

def makeTag (key : UInt64) (header ciphertext aad : Bytes) : Bytes :=
  (List.range 4).flatMap fun lane =>
    let hash := tagLane key header ciphertext aad lane
    [(hash >>> 24).toUInt8, (hash >>> 16).toUInt8, (hash >>> 8).toUInt8, hash.toUInt8]

def recordHeader (sequence : UInt64) : Bytes := securityRecordVersion :: writeU64Be sequence

def testRecord (key sequence : UInt64) (plaintext aad : Bytes) : Bytes :=
  let header := recordHeader sequence
  let ciphertext := applyStream key sequence plaintext
  header ++ ciphertext ++ makeTag key header ciphertext aad

def testSeal (test : TestContext) (plaintext aad : Bytes) (recordCapacity : ℕ) :
    Outcome Bytes × TestContext :=
  if plaintext.length > recordCapacity ∨
      securityOverhead > recordCapacity - plaintext.length then
    (fail .capacity, test)
  else
    (.ok (testRecord test.txKey test.txSequence plaintext aad),
      { test with txSequence := test.txSequence + 1 })

def testOpen (test : TestContext) (record aad : Bytes) (plaintextCapacity : ℕ) :
    Outcome Bytes × TestContext :=
  if record.length < securityOverhead ∨ record.head? ≠ some securityRecordVersion then
    (fail .format, test)
  else
    let sequence := recordSequence record
    if test.rxInitialized ∧ sequence ≤ test.rxHighest then (fail .replay, test)
    else
      let ciphertextLength := record.length - securityOverhead
      if ciphertextLength > plaintextCapacity then (fail .capacity, test)
      else
        let header := record.take (1 + securitySequenceBytes)
        let ciphertext := (record.drop (1 + securitySequenceBytes)).take ciphertextLength
        let received := record.drop (1 + securitySequenceBytes + ciphertextLength)
        if makeTag test.rxKey header ciphertext aad ≠ received then (fail .integrity, test)
        else
          (.ok (applyStream test.rxKey sequence ciphertext),
            { test with rxHighest := sequence, rxInitialized := true })

/-- The provider that `initialize_session` installs. -/
def testProvider : SecurityProvider TestContext where
  sealFn := testSeal
  openFn := testOpen
  overhead := securityOverhead

def securityTestPair (seed : UInt64) : TestContext × TestContext :=
  let clientToServer := mix64 (seed ^^^ 0x434c49454e542d54)
  let serverToClient := mix64 (seed ^^^ 0x5345525645522d54)
  (⟨clientToServer, serverToClient, 0, 0, false⟩, ⟨serverToClient, clientToServer, 0, 0, false⟩)

end AdaptiveLowpan
