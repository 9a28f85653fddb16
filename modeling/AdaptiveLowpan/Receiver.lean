import AdaptiveLowpan.Pipeline

/-! # The reassembling receiver -/

namespace AdaptiveLowpan
open ByteWords CheckedMemory

/-- `adaptive_receiver_t`, with the context of its security session. The
representation and the token are their used bytes. -/
structure Receiver (σ : Type) where
  security : σ
  representation : Bytes
  nextBlock : UInt32
  token : Bytes
  active : Bool
  deriving DecidableEq

variable {F D σ : Type} [CDouble D] [CFloat F D]

def receiverInit (security : σ) : Receiver σ where
  security := security
  representation := []
  nextBlock := 0
  token := []
  active := false

inductive Accepted where
  | ok | complete
  deriving DecidableEq

/-- What the receiver keeps of a packet before it looks at its record: block 0
starts a transfer. -/
def Receiver.restart (receiver : Receiver σ) (block : CoapBlock) : Receiver σ :=
  if block.blockNumber = 0 then
    { receiver with representation := [], nextBlock := 0, token := block.token, active := true }
  else receiver

def Receiver.expects (receiver : Receiver σ) (block : CoapBlock) : Bool :=
  receiver.active ∧ block.blockNumber = receiver.nextBlock ∧
    block.token.length = receiver.token.length ∧ block.token = receiver.token

def CoapBlock.payloadPointer (block : CoapBlock) : Option Bytes :=
  if block.payload = [] then none else some block.payload

def sizeSub (a b : ℕ) : ℕ := (a + 2 ^ 64 - b % 2 ^ 64) % 2 ^ 64

/-- `adaptive_receiver_accept`, from a parsed block on. -/
def receiverAcceptBlock (P : SecurityProvider σ) (receiver : Receiver σ) (block : CoapBlock)
    (out : DecodeTarget F D) : Outcome Accepted × Receiver σ × DecodeTarget F D :=
  let receiver := receiver.restart block
  if !receiver.expects block then (fail .format, receiver, out)
  else
    match securityOpen P receiver.security block.payloadPointer (pipelineBuildAad block)
        maxBlockSize with
    | (.error e, security) => (.error e, { receiver with security }, out)
    | (.ok plaintext, security) =>
      let receiver := { receiver with security }
      if plaintext.length > sizeSub maxRepresentation receiver.representation.length then
        (fail .capacity, receiver, out)
      else
        match emit maxRepresentation receiver.representation plaintext with
        | .error e => (.error e, receiver, out)
        | .ok representation =>
          let receiver := { receiver with representation, nextBlock := receiver.nextBlock + 1 }
          if block.more ≠ 0 then (.ok .ok, receiver, out)
          else
            match codecDecode receiver.representation out with
            | (.error e, out) => (.error e, receiver, out)
            | (.ok (), out) => (.ok .complete, { receiver with active := false }, out)

def receiverAccept (P : SecurityProvider σ) (receiver : Receiver σ) (packet : Bytes)
    (out : DecodeTarget F D) : Outcome Accepted × Receiver σ × DecodeTarget F D :=
  match coapParseBlock1 packet with
  | .error e => (.error e, receiver, out)
  | .ok block => receiverAcceptBlock P receiver block out

end AdaptiveLowpan
