import AdaptiveLowpan.Config
import AdaptiveLowpan.Normalizer

/-! # The online hidden Markov model

Prediction, correction, the recovery rule and the two kinds of online learning,
in the order in which `adaptive_hmm_step` runs them. -/

namespace AdaptiveLowpan
open CDouble

variable {D : Type} [CDouble D]

abbrev StateTable (D : Type) := AdaptiveState → D

structure Hmm (D : Type) where
  probability : StateTable D
  transition : AdaptiveState → StateTable D
  transitionCount : AdaptiveState → StateTable D
  transitionPrior : AdaptiveState → StateTable D
  emissionMean : AdaptiveState → AdaptiveMetric → D
  emissionVariance : AdaptiveState → AdaptiveMetric → D
  emissionAlpha : D
  transitionForgetting : D
  transitionSmoothing : D
  minVariance : D
  state : AdaptiveState
  previousState : AdaptiveState
  recoveryHold : UInt32
  recoveryRemaining : UInt32
  observations : UInt64

def dblMin : D := lit (1 / 2 ^ 1022)

def dblMax : D := lit ((2 ^ 53 - 1) * 2 ^ 971)

/-- `2.0 * M_PI`, with the value that `double` gives `M_PI`. -/
def twoPi : D := lit 2 * lit (314159265358979323846 / 100000000000000000000)

def stateSum (values : StateTable D) : D :=
  AdaptiveState.all.foldl (fun total state => total + values state) (lit 0)

def normalize (values : StateTable D) : StateTable D :=
  let total := stateSum values
  if total ≤ dblMin then fun _ => lit 1 / lit 5 else fun state => values state / total

def emissionLogProbability (hmm : Hmm D) (state : AdaptiveState)
    (observation : NetworkMetrics D) : D :=
  AdaptiveMetric.all.foldl (fun result metric =>
    let variance := hmm.emissionVariance state metric
    let delta := observation metric - hmm.emissionMean state metric
    let variance := if variance < hmm.minVariance then hmm.minVariance else variance
    result + lit (-1 / 2) * (log (twoPi * variance) + (delta * delta) / variance)) (lit 0)

/-- `largest_probability`: the first state of largest probability. -/
def largestProbability (probability : StateTable D) : AdaptiveState :=
  [AdaptiveState.normal, .degraded, .congested, .recovery].foldl
    (fun best state => if probability state > probability best then state else best) .good

/-- The counts of one row after forgetting and, in the row left, the new transition. -/
def forgottenCount (hmm : Hmm D) (source target row : AdaptiveState) : StateTable D :=
  fun column =>
    let count := hmm.transitionCount row column * hmm.transitionForgetting
    if row = source ∧ column = target then count + lit 1 else count

def updateTransition (hmm : Hmm D) (source target : AdaptiveState) : Hmm D :=
  let count := forgottenCount hmm source target
  let smoothed := fun row column =>
    count row column + hmm.transitionSmoothing * hmm.transitionPrior row column
  { hmm with
    transitionCount := count
    transition := fun row column => smoothed row column / stateSum (smoothed row) }

def updateEmissions (hmm : Hmm D) (observation : NetworkMetrics D) : Hmm D :=
  let rate := fun state => hmm.emissionAlpha * hmm.probability state
  let delta := fun state metric => observation metric - hmm.emissionMean state metric
  { hmm with
    emissionMean := fun state metric =>
      hmm.emissionMean state metric + rate state * delta state metric
    emissionVariance := fun state metric =>
      let variance := (lit 1 - rate state) * hmm.emissionVariance state metric +
        rate state * delta state metric * delta state metric
      if variance < hmm.minVariance then hmm.minVariance else variance }

def hmmInit (config : AdaptiveConfig D) : Hmm D :=
  let initial := normalize config.initialProbability
  let transition := fun row column =>
    config.transitionPrior row column / stateSum (config.transitionPrior row)
  { probability := initial
    transition := transition
    transitionCount := fun row column => config.transitionPriorStrength * transition row column
    transitionPrior := transition
    emissionMean := config.emissionMean
    emissionVariance := config.emissionVariance
    emissionAlpha := config.emissionAlpha
    transitionForgetting := config.transitionForgetting
    transitionSmoothing := config.transitionSmoothing
    minVariance := config.minEmissionVariance
    state := largestProbability initial
    previousState := largestProbability initial
    recoveryHold := config.recoveryHold
    recoveryRemaining := 0
    observations := 0 }

/-- The recovery rule of `adaptive_hmm_step`: the selected state and the remaining
hold, from the state left, the remaining hold and the most likely state. -/
def selectState (source : AdaptiveState) (hold remaining : UInt32)
    (candidate : AdaptiveState) : AdaptiveState × UInt32 :=
  if source = .congested ∧ candidate ≠ .congested then (.recovery, hold)
  else if source = .recovery then
    if candidate = .congested then (.congested, 0)
    else if remaining > 0 then (.recovery, remaining - 1)
    else if candidate = .recovery then (.normal, remaining)
    else (candidate, remaining)
  else if candidate = .recovery then (.normal, remaining)
  else (candidate, remaining)

/-- The normalised posterior of an observation. -/
def posterior (hmm : Hmm D) (observation : NetworkMetrics D) : StateTable D :=
  let prediction := fun j => stateSum (fun i => hmm.probability i * hmm.transition i j)
  let emissionLog := fun j => emissionLogProbability hmm j observation
  let maxLog := AdaptiveState.all.foldl
    (fun best j => if emissionLog j > best then emissionLog j else best) (-dblMax)
  normalize fun j => prediction j * exp (emissionLog j - maxLog)

/-- The probabilities kept after a step: the posterior, or half of it and half on
the selected state where the recovery rule overrode the most likely one. -/
def blend (posterior : StateTable D) (candidate selected : AdaptiveState) : StateTable D :=
  if selected ≠ candidate then
    normalize fun j =>
      let half := posterior j * lit (1 / 2)
      if j = selected then half + lit (1 / 2) else half
  else posterior

/-- `adaptive_hmm_step`: the selected state, its probabilities, and the new model. -/
def hmmStep (hmm : Hmm D) (normalized : NetworkMetrics D) :
    AdaptiveState × StateTable D × Hmm D :=
  let posterior := posterior hmm normalized
  let candidate := largestProbability posterior
  let (selected, remaining) :=
    selectState hmm.state hmm.recoveryHold hmm.recoveryRemaining candidate
  let probability := blend posterior candidate selected
  let hmm' := { hmm with
    previousState := hmm.state
    state := selected
    recoveryRemaining := remaining
    probability := probability }
  let hmm' := updateEmissions (updateTransition hmm' hmm.state selected) normalized
  (selected, probability, { hmm' with observations := hmm'.observations + 1 })

end AdaptiveLowpan
