import AdaptiveLowpan.CStrings
import AdaptiveLowpan.Config
import Mathlib.Logic.Function.Basic

/-! # The keys of the configuration file

What `apply_key` does with a key and a value, both without their terminating zeros. -/

namespace AdaptiveLowpan
open ByteWords

/-! ## Names -/

def nameEqual : Bytes → Bytes → Bool
  | [], [] => true
  | l :: left, r :: right => if toLower l ≠ toLower r then false else nameEqual left right
  | _, _ => false

def stateName : AdaptiveState → Bytes
  | .good => ascii "GOOD"
  | .normal => ascii "NORMAL"
  | .degraded => ascii "DEGRADED"
  | .congested => ascii "CONGESTED"
  | .recovery => ascii "RECOVERY"

def metricName : AdaptiveMetric → Bytes
  | .queue => ascii "queue"
  | .loss => ascii "loss"
  | .rtt => ascii "rtt"
  | .retry => ascii "retry"
  | .goodput => ascii "goodput"

def fromName {ι : Type} (all : List ι) (nameOf : ι → Bytes) (name : Bytes) : Except Failure ι :=
  match all.find? fun i => nameEqual name (nameOf i) with
  | some i => .ok i
  | none => .error .format

def stateFromName (name : Bytes) : Except Failure AdaptiveState :=
  fromName AdaptiveState.all stateName name

def metricFromName (name : Bytes) : Except Failure AdaptiveMetric :=
  fromName AdaptiveMetric.all metricName name

/-! ## Values -/

def trim (text : Bytes) : Bytes := TextLines.trim isSpace text

variable {D : Type} [CDouble D] [CStrtod D]
open CDouble

def parseDouble (text : Bytes) : Except Failure D :=
  let parsed : Conversion D := strtod text
  if parsed.errno ∨ parsed.rest = text ∨ trim parsed.rest ≠ [] ∨ ¬isfinite parsed.value then
    .error .format
  else .ok parsed.value

def parseUnsigned (text : Bytes) : Except Failure ℕ :=
  let parsed := strtoul text
  if parsed.errno ∨ parsed.rest = text ∨ trim parsed.rest ≠ [] then .error .format
  else .ok parsed.value

/-! ## Settings -/

/-- What a function that may handle a key returns: an error, nothing where the key is none
of its own, or what it has stored the value in. -/
abbrev Handled (α : Type) := Except Failure (Option α)

def Handled.of {α : Type} (outcome : Except Failure α) : Handled α := outcome.map some

def cutAt (c : UInt8) (text : Bytes) : Option (Bytes × Bytes) :=
  if c ∈ text then some (text.takeWhile (· ≠ c), (text.dropWhile (· ≠ c)).tail) else none

def setStateEntry {α : Type} (parse : Bytes → Except Failure α) (key keyPrefix value : Bytes)
    (target : AdaptiveState → α) : Handled (AdaptiveState → α) :=
  if ¬keyPrefix.isPrefixOf key then .ok none
  else .of do
    let state ← stateFromName (key.drop keyPrefix.length)
    let parsed ← parse value
    return Function.update target state parsed

def setStateValue (key keyPrefix value : Bytes) (target : AdaptiveState → D) :
    Handled (AdaptiveState → D) :=
  setStateEntry parseDouble key keyPrefix value target

def setStateUnsigned (key keyPrefix value : Bytes) (target : AdaptiveState → UInt32) :
    Handled (AdaptiveState → UInt32) :=
  setStateEntry (fun text => UInt32.ofNat <$> parseUnsigned text) key keyPrefix value target

def setStateU8 (key keyPrefix value : Bytes) (target : AdaptiveState → UInt8) :
    Handled (AdaptiveState → UInt8) :=
  setStateEntry (fun text => do
    let parsed ← parseUnsigned text
    if parsed > 255 then throw .format
    return UInt8.ofNat parsed) key keyPrefix value target

/-- An entry of a table over the states and a second enumeration, whose names stand in the
key with a dot between them. They are copied to a buffer of 64 bytes. -/
def setPairEntry {ι : Type} [DecidableEq ι] (columnFromName : Bytes → Except Failure ι)
    (key keyPrefix value : Bytes) (target : AdaptiveState → ι → D) :
    Handled (AdaptiveState → ι → D) :=
  if ¬keyPrefix.isPrefixOf key then .ok none
  else
    let names := key.drop keyPrefix.length
    if names.length ≥ 64 then .error .format
    else match cutAt 0x2e names with
      | none => .error .format
      | some (name, name') => .of do
        let row ← stateFromName name
        let column ← columnFromName name'
        let parsed ← parseDouble value
        return Function.update target row (Function.update (target row) column parsed)

def setMatrixValue (key keyPrefix value : Bytes) (target : AdaptiveState → AdaptiveState → D) :
    Handled (AdaptiveState → AdaptiveState → D) :=
  setPairEntry stateFromName key keyPrefix value target

def setEmissionValue (key keyPrefix value : Bytes) (target : AdaptiveState → AdaptiveMetric → D) :
    Handled (AdaptiveState → AdaptiveMetric → D) :=
  setPairEntry metricFromName key keyPrefix value target

def setDouble (value : Bytes) (store : D → AdaptiveConfig D) : Handled (AdaptiveConfig D) :=
  .of do
    let parsed ← parseDouble value
    return store parsed

def setUnsigned (value : Bytes) (store : UInt32 → AdaptiveConfig D) :
    Handled (AdaptiveConfig D) :=
  .of do
    let parsed ← parseUnsigned value
    return store (UInt32.ofNat parsed)

/-- The table that a function has stored the value in becomes part of the configuration. -/
def Handled.into {α β : Type} (store : α → β) (handled : Handled α) : Handled β :=
  handled.map (Option.map store)

/-- The first of some functions that handles a key. -/
def firstHandled {α : Type} : List (Handled α) → Handled α
  | [] => .ok none
  | .ok none :: others => firstHandled others
  | handled :: _ => handled

def applyStateKey (config : AdaptiveConfig D) (key value : Bytes) : Handled (AdaptiveConfig D) :=
  firstHandled [
    (setStateValue key (ascii "hmm.initial.") value config.initialProbability).into
      fun table => { config with initialProbability := table },
    (setStateValue key (ascii "policy.threshold_gain.") value config.thresholdGain).into
      fun table => { config with thresholdGain := table },
    (setStateUnsigned key (ascii "policy.quant_bits.") value config.quantBits).into
      fun table => { config with quantBits := table },
    (setStateU8 key (ascii "policy.block_szx.") value config.blockSzx).into
      fun table => { config with blockSzx := table },
    (setStateValue key (ascii "policy.sampling_factor.") value config.samplingFactor).into
      fun table => { config with samplingFactor := table },
    (setMatrixValue key (ascii "hmm.transition.") value config.transitionPrior).into
      fun table => { config with transitionPrior := table },
    (setEmissionValue key (ascii "hmm.mean.") value config.emissionMean).into
      fun table => { config with emissionMean := table },
    (setEmissionValue key (ascii "hmm.variance.") value config.emissionVariance).into
      fun table => { config with emissionVariance := table }]

/-- `apply_key`. It returns the new configuration where the source returns 1, and nothing
where it returns 0. -/
def applyKey (config : AdaptiveConfig D) (key value : Bytes) : Handled (AdaptiveConfig D) :=
  if key = ascii "baseline.alpha" then
    setDouble value fun parsed => { config with baselineAlpha := parsed }
  else if key = ascii "baseline.epsilon" then
    setDouble value fun parsed => { config with baselineEpsilon := parsed }
  else if key = ascii "hmm.emission_alpha" then
    setDouble value fun parsed => { config with emissionAlpha := parsed }
  else if key = ascii "hmm.transition_forgetting" then
    setDouble value fun parsed => { config with transitionForgetting := parsed }
  else if key = ascii "hmm.transition_smoothing" then
    setDouble value fun parsed => { config with transitionSmoothing := parsed }
  else if key = ascii "hmm.transition_prior_strength" then
    setDouble value fun parsed => { config with transitionPriorStrength := parsed }
  else if key = ascii "hmm.min_variance" then
    setDouble value fun parsed => { config with minEmissionVariance := parsed }
  else if key = ascii "hmm.recovery_hold" then
    setUnsigned value fun parsed => { config with recoveryHold := parsed }
  else if key = ascii "wavelet.window_size" then .of do
    let parsed ← parseUnsigned value
    return { config with windowSize := parsed }
  else if key = ascii "wavelet.levels" then
    setUnsigned value fun parsed => { config with waveletLevels := parsed }
  else if key = ascii "coap.content_format" then
    setUnsigned value fun parsed => { config with contentFormat := parsed }
  else if key = ascii "coap.uri_path" then
    if hlength : value.length ≤ maxUriPath then
      .of (.ok { config with uriPath := ⟨value, hlength⟩ })
    else .error .range
  else applyStateKey config key value

end AdaptiveLowpan
