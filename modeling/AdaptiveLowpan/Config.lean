import AdaptiveLowpan.Arithmetic
import AdaptiveLowpan.Types

/-! # The runtime configuration and its validator -/

namespace AdaptiveLowpan
open ByteWords

/-- A string in a `char` array of `maxUriPath + 1` elements: the characters before
the terminating zero, for which there is always room. -/
structure UriPath where
  chars : Bytes
  length_le : chars.length ≤ maxUriPath

/-- `adaptive_config_t`. An array indexed by states or metrics is a function. -/
structure AdaptiveConfig (D : Type) where
  baselineAlpha : D
  baselineEpsilon : D
  emissionAlpha : D
  transitionForgetting : D
  transitionSmoothing : D
  transitionPriorStrength : D
  minEmissionVariance : D
  recoveryHold : UInt32
  initialProbability : AdaptiveState → D
  transitionPrior : AdaptiveState → AdaptiveState → D
  emissionMean : AdaptiveState → AdaptiveMetric → D
  emissionVariance : AdaptiveState → AdaptiveMetric → D
  windowSize : ℕ
  waveletLevels : UInt32
  thresholdGain : AdaptiveState → D
  quantBits : AdaptiveState → UInt32
  blockSzx : AdaptiveState → UInt8
  samplingFactor : AdaptiveState → D
  uriPath : UriPath
  contentFormat : UInt32

/-- What the validator reports: the returned code and the text for the caller. -/
structure ConfigError where
  code : Failure
  message : String
  deriving DecidableEq

variable {D : Type} [CDouble D]
open CDouble

def defaultUriPath : UriPath where
  chars := [0x74, 0x65, 0x6c, 0x65, 0x6d, 0x65, 0x74, 0x72, 0x79]
  length_le := by decide

def AdaptiveState.table {α : Type} (good normal degraded congested recovery : α) :
    AdaptiveState → α
  | .good => good | .normal => normal | .degraded => degraded | .congested => congested
  | .recovery => recovery

def defaultTransition : AdaptiveState → AdaptiveState → D :=
  AdaptiveState.table
    (AdaptiveState.table (lit 0.75) (lit 0.20) (lit 0.04) (lit 0.01) (lit 0))
    (AdaptiveState.table (lit 0.10) (lit 0.70) (lit 0.16) (lit 0.04) (lit 0))
    (AdaptiveState.table (lit 0.02) (lit 0.12) (lit 0.60) (lit 0.26) (lit 0))
    (AdaptiveState.table (lit 0) (lit 0) (lit 0.02) (lit 0.76) (lit 0.22))
    (AdaptiveState.table (lit 0.04) (lit 0.36) (lit 0.20) (lit 0.05) (lit 0.35))

/-- `adaptive_config_defaults`. The recovery means are set after those of
`initialize_emissions`, from the normal ones. -/
def configDefaults : AdaptiveConfig D where
  baselineAlpha := lit 0.04
  baselineEpsilon := lit 1e-9
  emissionAlpha := lit 0.025
  transitionForgetting := lit 0.995
  transitionSmoothing := lit 0.25
  transitionPriorStrength := lit 8
  minEmissionVariance := lit 0.05
  recoveryHold := 3
  initialProbability := AdaptiveState.table (lit 0) (lit 1) (lit 0) (lit 0) (lit 0)
  transitionPrior := defaultTransition
  emissionMean := fun state _ =>
    AdaptiveState.table (lit (-1)) (lit 0) (lit 0.75) (lit 1.5) (lit 0 + lit 0.25) state
  emissionVariance := fun _ _ => lit 1
  windowSize := 128
  waveletLevels := 3
  thresholdGain := AdaptiveState.table (lit 0.75) (lit 1) (lit 1.35) (lit 2) (lit 1.2)
  quantBits := AdaptiveState.table 14 12 10 8 10
  blockSzx := AdaptiveState.table 2 2 1 1 1
  samplingFactor := AdaptiveState.table (lit 1) (lit 1) (lit 0.8) (lit 0.5) (lit 0.75)
  uriPath := defaultUriPath
  contentFormat := 42

def isPowerOfTwo (value : ℕ) : Bool := value ≠ 0 ∧ value &&& (value - 1) = 0

/-- The body of the loop over the states in `adaptive_config_validate`, given the
sum of the initial probabilities so far. -/
def validateState (config : AdaptiveConfig D) (state : AdaptiveState) (total : D) :
    Except ConfigError D :=
  if config.thresholdGain state < lit 0 ∨
      config.quantBits state < 2 ∨ config.quantBits state > 15 ∨
      config.blockSzx state > 6 ∨
      config.samplingFactor state ≤ lit 0 ∨ config.samplingFactor state > lit 1 then
    throw ⟨.range, "invalid state policy"⟩
  else if ∃ metric ∈ AdaptiveMetric.all, config.emissionVariance state metric ≤ lit 0 then
    throw ⟨.range, "emission variance must be positive"⟩
  else do
    let row ← AdaptiveState.all.foldlM (fun row column =>
      if config.transitionPrior state column < lit 0 then
        throw ⟨.range, "negative transition probability"⟩
      else pure (row + config.transitionPrior state column)) (lit 0)
    if row ≤ lit 0 then throw ⟨.range, "transition row must have mass"⟩
    else return total + config.initialProbability state

def configValidate (config : AdaptiveConfig D) : Except ConfigError Unit :=
  if config.baselineAlpha ≤ lit 0 ∨ config.baselineAlpha ≥ lit 1 ∨
      config.emissionAlpha ≤ lit 0 ∨ config.emissionAlpha ≥ lit 1 ∨
      config.transitionForgetting ≤ lit 0 ∨ config.transitionForgetting > lit 1 ∨
      config.transitionSmoothing < lit 0 ∨ config.transitionPriorStrength ≤ lit 0 ∨
      config.minEmissionVariance ≤ lit 0 then
    throw ⟨.range, "invalid adaptive learning parameter"⟩
  else if ¬isPowerOfTwo config.windowSize ∨ config.windowSize > maxWindow ∨
      config.waveletLevels = 0 ∨ config.waveletLevels ≥ 64 ∨
      config.windowSize >>> (config.waveletLevels.toNat - 1) < 8 then
    throw ⟨.range, "invalid wavelet window or level"⟩
  else if config.uriPath.chars = [] then
    throw ⟨.range, "CoAP URI path must not be empty"⟩
  else do
    let total ← AdaptiveState.all.foldlM (fun total state => validateState config state total)
      (lit 0)
    if total ≤ lit 0 then throw ⟨.range, "initial probabilities must have mass"⟩
    else return ()

end AdaptiveLowpan
