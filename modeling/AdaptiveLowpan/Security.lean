import AdaptiveLowpan.Types

/-! # The security session

A provider is a pair of functions over its context and the length it adds to a
plaintext. A session is a provider with the context behind its pointer. -/

namespace AdaptiveLowpan
open ByteWords

abbrev securityRecordVersion : UInt8 := 1
abbrev securitySequenceBytes : ℕ := 8
abbrev securityTagBytes : ℕ := 16
abbrev securityOverhead : ℕ := 1 + securitySequenceBytes + securityTagBytes

/-- The function pointers and the overhead of `adaptive_security_session`. Each
function takes the context, its two inputs and the capacity of its output. -/
structure SecurityProvider (σ : Type) where
  sealFn : σ → Bytes → Bytes → ℕ → Outcome Bytes × σ
  openFn : σ → Bytes → Bytes → ℕ → Outcome Bytes × σ
  overhead : ℕ

variable {σ : Type}

def securitySeal (P : SecurityProvider σ) (context : σ) (plaintext aad : Bytes)
    (recordCapacity : ℕ) : Outcome Bytes × σ :=
  P.sealFn context plaintext aad recordCapacity

/-- `adaptive_security_open`; the record pointer may be null. -/
def securityOpen (P : SecurityProvider σ) (context : σ) (record : Option Bytes) (aad : Bytes)
    (plaintextCapacity : ℕ) : Outcome Bytes × σ :=
  match record with
  | none => (fail .argument, context)
  | some record => P.openFn context record aad plaintextCapacity

def writeU64Be (value : UInt64) : Bytes :=
  (List.range 8).map fun j => (value >>> UInt64.ofNat (8 * (7 - j))).toUInt8

def readU64Be (input : Bytes) : UInt64 :=
  (input.take 8).foldl (fun value byte => (value <<< 8) ||| byte.toUInt64) 0

def recordSequence (record : Bytes) : UInt64 := readU64Be (record.drop 1)

end AdaptiveLowpan
