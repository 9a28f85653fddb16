import AdaptiveLowpan.Pipeline

/-! # The Contiki-NG node

How `adaptive_node_process` sends a window that it has encoded. Contiki's CoAP stack
makes the packets and waits for the answers: it is a parameter. -/

namespace AdaptiveLowpan
open ByteWords

def contikiTypeCon : UInt8 := 0

def contikiPost : UInt8 := 2

structure ContikiRequest where
  type : UInt8
  code : UInt8
  token : Bytes
  uriPath : Bytes
  contentFormat : UInt32
  block1Number : UInt32
  block1More : UInt8
  block1Size : ℕ
  size1 : UInt32
  payload : Bytes

abbrev BlockingRequest (τ : Type) := τ → ContikiRequest → Option UInt8 × τ

def responseHandler (response : Option UInt8) : Bool :=
  match response with
  | some code => 64 ≤ code ∧ code < 96
  | none => false

variable {D σ τ : Type}

/-- The sizes of a window, unless its block size is too small. -/
def nodePlan (overhead : ℕ) (config : AdaptiveConfig D) (window : EncodedWindow D) :
    Option TransferPlan :=
  let szx := config.blockSzx window.state
  let blockSize := coapBlockSize szx
  if blockSize ≤ overhead then none
  else
    let plaintextCapacity := blockSize - overhead
    let representationLength := window.representation.length
    let blockCount := (representationLength + plaintextCapacity - 1) / plaintextCapacity
    let protectedSize := representationLength + blockCount * overhead
    some ⟨window.windowId, window.representation, szx, config.contentFormat,
      config.uriPath.chars, blockSize, plaintextCapacity, blockCount, protectedSize⟩

structure NodeState (σ τ : Type) where
  security : σ
  representationOffset : ℕ
  blockNumber : UInt32
  transport : τ

def TransferPlan.aadBlock (plan : TransferPlan) (blockNumber : UInt32) (more : UInt8) :
    CoapBlock where
  type := contikiTypeCon
  code := contikiPost
  messageId := 0
  token := writeU32Be plan.windowId
  blockNumber := blockNumber
  more := more
  szx := plan.szx
  contentFormat := plan.contentFormat
  size1 := 0
  payload := []

def TransferPlan.nodeRequest (plan : TransferPlan) (blockNumber : UInt32) (more : UInt8)
    (record : Bytes) : ContikiRequest where
  type := contikiTypeCon
  code := contikiPost
  token := (plan.aadBlock blockNumber more).token
  uriPath := plan.uriPath
  contentFormat := plan.contentFormat
  block1Number := blockNumber
  block1More := more
  block1Size := plan.blockSize
  size1 := UInt32.ofNat plan.totalProtected
  payload := record

def nodeTurn (P : SecurityProvider σ) (request : BlockingRequest τ) (plan : TransferPlan)
    (n : NodeState σ τ) : Bool × NodeState σ τ :=
  let remaining := plan.representation.length - n.representationOffset
  let plaintextLength :=
    if remaining < plan.plaintextCapacity then remaining else plan.plaintextCapacity
  let more : UInt8 :=
    if n.representationOffset + plaintextLength < plan.representation.length then 1 else 0
  match securitySeal P n.security
      ((plan.representation.drop n.representationOffset).take plaintextLength)
      (pipelineBuildAad (plan.aadBlock n.blockNumber more)) maxBlockSize with
  | (.error _, security) => (false, { n with security })
  | (.ok record, security) =>
    let (response, transport) :=
      request n.transport (plan.nodeRequest n.blockNumber more record)
    let n := { n with security, transport }
    if !responseHandler response then (false, n)
    else
      (true, { n with
        representationOffset := n.representationOffset + plaintextLength
        blockNumber := n.blockNumber + 1 })

/-- The `while` loop, for at most so many turns: nothing where they do not suffice. -/
def nodeLoop (P : SecurityProvider σ) (request : BlockingRequest τ) (plan : TransferPlan) :
    ℕ → NodeState σ τ → Option (NodeState σ τ)
  | 0, n => if n.representationOffset < plan.representation.length then none else some n
  | turns + 1, n =>
    if n.representationOffset < plan.representation.length then
      match nodeTurn P request plan n with
      | (false, n) => some n
      | (true, n) => nodeLoop P request plan turns n
    else some n

end AdaptiveLowpan
