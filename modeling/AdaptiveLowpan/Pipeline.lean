import AdaptiveLowpan.Aad
import AdaptiveLowpan.Codec
import AdaptiveLowpan.Hmm
import AdaptiveLowpan.Security

/-! # The sending pipeline

One call infers the network state, encodes the window, and seals, packs and sends
its blocks one after the other. -/

namespace AdaptiveLowpan
open ByteWords CDouble CFloat

structure Pipeline (D σ : Type) where
  config : AdaptiveConfig D
  normalizer : Normalizer D
  hmm : Hmm D
  security : σ
  nextWindowId : UInt32
  nextMessageId : UInt16

structure PipelineStats (D : Type) where
  windowId : UInt32
  state : AdaptiveState
  stateProbability : D
  samplingFactor : D
  inputBytes : ℕ
  compressedBytes : ℕ
  protectedBodyBytes : ℕ
  blockCount : ℕ
  blockSzx : UInt8
  compressionRatio : D
  deriving DecidableEq

/-- `adaptive_transport_send_fn` over the caller's context. -/
abbrev TransportSend (τ : Type) := τ → Bytes → AdaptiveResult × τ

variable {F D σ τ : Type} [CDouble D] [CFloat F D]

/-- `adaptive_pipeline_init`, for a session with a `seal` function. -/
def pipelineInit (P : SecurityProvider σ) (config : AdaptiveConfig D) (security : σ) :
    Outcome (Pipeline D σ) :=
  if P.overhead = 0 then fail .argument
  else .ok
    { config
      normalizer := normalizerInit config.baselineAlpha config.baselineEpsilon
      hmm := hmmInit config
      security
      nextWindowId := 1
      nextMessageId := 1 }

/-- What a call has computed when it comes to the block sizes. -/
structure EncodedWindow (D : Type) where
  windowId : UInt32
  state : AdaptiveState
  stateProbability : StateTable D
  representation : Bytes
  metadata : CodecMetadata D

/-- `adaptive_pipeline_process` up to the call of `adaptive_codec_encode`. -/
def pipelineEncode (pipeline : Pipeline D σ) (samples : List F) (metrics : NetworkMetrics D) :
    Outcome (EncodedWindow D) × Pipeline D σ :=
  if samples.length ≠ pipeline.config.windowSize then (fail .argument, pipeline)
  else
    match normalizerUpdate pipeline.normalizer metrics with
    | (.error e, normalizer) => (.error e, { pipeline with normalizer })
    | (.ok normalized, normalizer) =>
      let (state, stateProbability, hmm) := hmmStep pipeline.hmm normalized
      let windowId := pipeline.nextWindowId
      let pipeline := { pipeline with normalizer, hmm, nextWindowId := windowId + 1 }
      match codecEncode samples windowId state pipeline.config maxRepresentation with
      | .error e => (.error e, pipeline)
      | .ok (representation, metadata) =>
        (.ok ⟨windowId, state, stateProbability, representation, metadata⟩, pipeline)

/-- The values that stay fixed while the blocks of one window are sent. -/
structure TransferPlan where
  windowId : UInt32
  representation : Bytes
  szx : UInt8
  contentFormat : UInt32
  uriPath : Bytes
  blockSize : ℕ
  plaintextCapacity : ℕ
  blockCount : ℕ
  totalProtected : ℕ

/-- The block sizes, block count and protected length of a window. -/
def planTransfer (overhead : ℕ) (config : AdaptiveConfig D) (window : EncodedWindow D) :
    Outcome TransferPlan :=
  let szx := config.blockSzx window.state
  let blockSize := coapBlockSize szx
  if blockSize = 0 ∨ blockSize > maxBlockSize ∨ blockSize ≤ overhead then fail .range
  else
    let plaintextCapacity := blockSize - overhead
    let representationLength := window.representation.length
    let blockCount := (representationLength + plaintextCapacity - 1) / plaintextCapacity
    let totalProtected := representationLength + blockCount * overhead
    if totalProtected > 4294967295 then fail .range
    else .ok ⟨window.windowId, window.representation, szx, config.contentFormat,
      config.uriPath.chars, blockSize, plaintextCapacity, blockCount, totalProtected⟩

/-- The block that carries block number `blockNumber`, before its payload is known. -/
def TransferPlan.block (plan : TransferPlan) (messageId : UInt16) (blockNumber : ℕ) : CoapBlock where
  type := coapTypeCon
  code := coapCodePost
  messageId := messageId
  token := writeU32Be plan.windowId
  blockNumber := UInt32.ofNat blockNumber
  more := if blockNumber + 1 < plan.blockCount then 1 else 0
  szx := plan.szx
  contentFormat := plan.contentFormat
  size1 := UInt32.ofNat plan.totalProtected
  payload := []

/-- What changes while the blocks of one window are sent. -/
structure TransferState (σ τ : Type) where
  security : σ
  nextMessageId : UInt16
  offset : ℕ
  transport : τ

def sendBlock (P : SecurityProvider σ) (send : TransportSend τ) (plan : TransferPlan)
    (blockNumber : ℕ) (s : TransferState σ τ) : Outcome Unit × TransferState σ τ :=
  let remaining := plan.representation.length - s.offset
  let plaintextLength :=
    if remaining < plan.plaintextCapacity then remaining else plan.plaintextCapacity
  let block := plan.block s.nextMessageId blockNumber
  let s := { s with nextMessageId := s.nextMessageId + 1 }
  match securitySeal P s.security ((plan.representation.drop s.offset).take plaintextLength)
      (pipelineBuildAad block) maxBlockSize with
  | (.error e, security) => (.error e, { s with security })
  | (.ok record, security) =>
    let s := { s with security }
    if record.length > plan.blockSize ∨ (block.more ≠ 0 ∧ record.length ≠ plan.blockSize) then
      (fail .format, s)
    else
      match coapBuildBlock1 { block with payload := record } plan.uriPath maxCoapPacket with
      | .error e => (.error e, s)
      | .ok packet =>
        let (result, transport) := send s.transport packet
        match result.toOutcome with
        | .error e => (.error e, { s with transport })
        | .ok () => (.ok (), { s with transport, offset := s.offset + plaintextLength })

/-- The loop over the blocks, with `count` blocks left from `blockNumber` on. -/
def sendBlocks (P : SecurityProvider σ) (send : TransportSend τ) (plan : TransferPlan) :
    ℕ → ℕ → TransferState σ τ → Outcome Unit × TransferState σ τ
  | 0, _, s => (.ok (), s)
  | count + 1, blockNumber, s =>
    match sendBlock P send plan blockNumber s with
    | (.error e, s) => (.error e, s)
    | (.ok (), s) => sendBlocks P send plan count (blockNumber + 1) s

def pipelineProcess (P : SecurityProvider σ) (pipeline : Pipeline D σ) (samples : List F)
    (metrics : NetworkMetrics D) (send : TransportSend τ) (sendContext : τ) :
    Outcome (PipelineStats D) × Pipeline D σ × τ :=
  match pipelineEncode pipeline samples metrics with
  | (.error e, pipeline) => (.error e, pipeline, sendContext)
  | (.ok window, pipeline) =>
    match planTransfer P.overhead pipeline.config window with
    | .error e => (.error e, pipeline, sendContext)
    | .ok plan =>
      let (result, s) := sendBlocks P send plan plan.blockCount 0
        ⟨pipeline.security, pipeline.nextMessageId, 0, sendContext⟩
      let pipeline := { pipeline with security := s.security, nextMessageId := s.nextMessageId }
      match result with
      | .error e => (.error e, pipeline, s.transport)
      | .ok () =>
        let inputBytes := samples.length * 4
        (.ok ⟨window.windowId, window.state, window.stateProbability window.state,
            pipeline.config.samplingFactor window.state, inputBytes,
            window.representation.length, plan.totalProtected, plan.blockCount, plan.szx,
            lit (window.representation.length : ℚ) / lit (inputBytes : ℚ)⟩,
          pipeline, s.transport)

end AdaptiveLowpan
