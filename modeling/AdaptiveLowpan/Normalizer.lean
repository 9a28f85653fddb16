import AdaptiveLowpan.Arithmetic
import AdaptiveLowpan.Types

/-! # The baseline normaliser

An exponentially weighted mean and variance for each raw metric. The first vector
only initialises the baseline; each later one is scaled by the baseline before it. -/

namespace AdaptiveLowpan
open CDouble

variable {D : Type} [CDouble D]

abbrev NetworkMetrics (D : Type) := AdaptiveMetric → D

structure Normalizer (D : Type) where
  mean : AdaptiveMetric → D
  variance : AdaptiveMetric → D
  alpha : D
  epsilon : D
  initialized : Bool

def normalizerInit (alpha epsilon : D) : Normalizer D where
  mean := fun _ => lit 0
  variance := fun _ => lit 0
  alpha := alpha
  epsilon := epsilon
  initialized := false

def initialScale (raw : D) : D :=
  let scale := fabs raw * lit (1 / 10)
  if scale < lit 1 then lit 1 else scale

/-- The deviation of a metric from its baseline, in standard deviations. -/
def normalizedValue (n : Normalizer D) (metric : AdaptiveMetric) (raw : D) : D :=
  let delta := raw - n.mean metric
  let z := delta / sqrt (n.variance metric + n.epsilon)
  let z := if metric = .goodput then -z else z
  let z := if z > lit 6 then lit 6 else z
  if z < lit (-6) then lit (-6) else z

def updatedVariance (n : Normalizer D) (metric : AdaptiveMetric) (raw : D) : D :=
  let delta := raw - n.mean metric
  let variance := (lit 1 - n.alpha) * (n.variance metric + n.alpha * delta * delta)
  if variance < n.epsilon then n.epsilon else variance

def normalizerUpdate (n : Normalizer D) (raw : NetworkMetrics D) :
    Outcome (NetworkMetrics D) × Normalizer D :=
  if ∃ metric ∈ AdaptiveMetric.all, ¬isfinite (raw metric) then (fail .range, n)
  else if !n.initialized then
    (.ok fun _ => lit 0,
      { n with
        mean := raw
        variance := fun metric => initialScale (raw metric) * initialScale (raw metric)
        initialized := true })
  else
    (.ok fun metric => normalizedValue n metric (raw metric),
      { n with
        mean := fun metric => n.mean metric + n.alpha * (raw metric - n.mean metric)
        variance := fun metric => updatedVariance n metric (raw metric) })

end AdaptiveLowpan
