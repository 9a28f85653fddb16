import AdaptiveLowpan.ContikiExchange
import AdaptiveLowpan.ContikiPort

/-! # The node process

`adaptive_node_process`: at every expiry of its timer it observes the network, encodes a
window and sends it block by block. The timer and the board are the list of what the hooks
return at the expiries. -/

namespace AdaptiveLowpan
open ByteWords CheckedMemory CDouble CFloat Slices

variable {F D σ τ : Type} [CDouble D] [CFloat F D]

/-- The static variables that one turn of the process leaves to the next. -/
structure NodeProcess (D σ τ : Type) where
  normalizer : Normalizer D
  hmm : Hmm D
  observer : ContikiObserver D
  security : σ
  windowId : UInt32
  transport : τ

def nodeProcessInit (config : AdaptiveConfig D) (security : σ) (transport : τ) :
    NodeProcess D σ τ where
  normalizer := normalizerInit config.baselineAlpha config.baselineEpsilon
  hmm := hmmInit config
  observer := contikiObserverInit
  security := security
  windowId := 1
  transport := transport

/-- A request, after which `adaptive_contiki_observer_record` sees how it went. -/
def observedRequest (clockSecond : ℕ) (request : TimedRequest τ) :
    BlockingRequest (τ × ContikiObserver D) := fun t message =>
  let (response, elapsed, transport) := request t.1 message
  (response, transport, contikiObserverRecord clockSecond t.2
    ⟨elapsed, responseHandler response, message.payload.length⟩)

/-- A turn of the process up to the call of `adaptive_codec_encode`. -/
def nodeEncode (config : AdaptiveConfig D) (node : NodeProcess D σ τ)
    (readings : PlatformReadings F D config.windowSize) :
    Outcome (EncodedWindow D) × NodeProcess D σ τ :=
  match normalizerUpdate node.normalizer (contikiMetricsSnapshot node.observer readings) with
  | (.error e, normalizer) => (.error e, { node with normalizer })
  | (.ok normalized, normalizer) =>
    let (state, stateProbability, hmm) := hmmStep node.hmm normalized
    let node := { node with normalizer, hmm }
    match codecEncode readings.samples node.windowId state config maxRepresentation with
    | .error e => (.error e, node)
    | .ok (representation, metadata) =>
      (.ok ⟨node.windowId, state, stateProbability, representation, metadata⟩, node)

/-- How a turn of the process ends. A window is finished if no block of it was left by a
`break`. -/
inductive NodeReport (D : Type) where
  | encodeError (e : Stop Failure)
  | blockTooSmall (window : EncodedWindow D)
  | sent (window : EncodedWindow D) (finished : Bool)

def nodeIteration (clockSecond : ℕ) (P : SecurityProvider σ) (request : TimedRequest τ)
    (config : AdaptiveConfig D) (node : NodeProcess D σ τ)
    (readings : PlatformReadings F D config.windowSize) :
    Option (NodeReport D × NodeProcess D σ τ) :=
  match nodeEncode config node readings with
  | (.error e, node) => some (.encodeError e, node)
  | (.ok window, node) =>
    match nodePlan P.overhead config window with
    | none => some (.blockTooSmall window, node)
    | some plan =>
      match nodeLoop P (observedRequest clockSecond request) plan plan.representation.length
          ⟨node.security, 0, 0, (node.transport, node.observer)⟩ with
      | none => none
      | some n =>
        some (.sent window (plan.representation.length ≤ n.representationOffset),
          { node with
            security := n.security
            transport := n.transport.1
            observer := n.transport.2
            windowId := node.windowId + 1 })

/-- The turns of the process, one for every expiry of the timer. -/
def nodeProcess (clockSecond : ℕ) (P : SecurityProvider σ) (request : TimedRequest τ)
    (config : AdaptiveConfig D) (node : NodeProcess D σ τ) :
    List (PlatformReadings F D config.windowSize) →
      Option (List (NodeReport D) × NodeProcess D σ τ)
  | [] => some ([], node)
  | readings :: rest =>
    match nodeIteration clockSecond P request config node readings with
    | none => none
    | some (report, node) =>
      match nodeProcess clockSecond P request config node rest with
      | none => none
      | some (reports, node) => some (report :: reports, node)

end AdaptiveLowpan
