import AdaptiveLowpan.Normalizer

/-! # What the node observes of the network

Exponentially weighted means over the requests that the node has made. The hooks of the
board supply the rest of a vector of metrics: their values are parameters. -/

namespace AdaptiveLowpan
open CDouble

variable {D : Type} [CDouble D]

def portEwmaAlpha : D := lit (1 / 8)

structure ContikiObserver (D : Type) where
  lossEwma : D
  retryEwma : D
  rttMsEwma : D
  goodputBpsEwma : D
  consecutiveFailures : UInt32
  initialized : Bool

def contikiObserverInit : ContikiObserver D where
  lossEwma := lit 0
  retryEwma := lit 0
  rttMsEwma := lit 0
  goodputBpsEwma := lit 0
  consecutiveFailures := 0
  initialized := false

def ewma (previous sample : D) (initialized : Bool) : D :=
  if initialized then (lit 1 - portEwmaAlpha) * previous + portEwmaAlpha * sample else sample

/-- How a request went: the ticks of the clock that it took, whether it was acknowledged,
and the length of its payload. -/
structure ContikiSample where
  elapsed : ℕ
  success : Bool
  payloadBytes : ℕ

def ContikiSample.ticks (sample : ContikiSample) : ℕ :=
  if sample.elapsed = 0 then 1 else sample.elapsed

def ContikiSample.rttMs (clockSecond : ℕ) (sample : ContikiSample) : D :=
  lit 1000 * lit (sample.ticks : ℚ) / lit (clockSecond : ℚ)

def ContikiSample.goodput (clockSecond : ℕ) (sample : ContikiSample) : D :=
  if sample.success then
    lit 8 * lit (sample.payloadBytes : ℚ) * lit (clockSecond : ℚ) / lit (sample.ticks : ℚ)
  else lit 0

/-- `adaptive_contiki_observer_record`, on a clock with `clockSecond` ticks a second. -/
def contikiObserverRecord (clockSecond : ℕ) (observer : ContikiObserver D)
    (sample : ContikiSample) : ContikiObserver D :=
  let failures := if sample.success then 0 else observer.consecutiveFailures + 1
  { lossEwma :=
      ewma observer.lossEwma (if sample.success then lit 0 else lit 1) observer.initialized
    rttMsEwma := ewma observer.rttMsEwma (sample.rttMs clockSecond) observer.initialized
    goodputBpsEwma :=
      ewma observer.goodputBpsEwma (sample.goodput clockSecond) observer.initialized
    consecutiveFailures := failures
    retryEwma := ewma observer.retryEwma (if failures > 0 then lit 1 else lit 0)
      observer.initialized
    initialized := true }

/-- What the hooks of the board return in one turn of the node: the samples that
`adaptive_platform_read_window` writes, and the two ratios. -/
structure PlatformReadings (F D : Type) (sampleCount : ℕ) where
  samples : List F
  samples_length : samples.length = sampleCount
  queueRatio : D
  macRetryRatio : D

def contikiMetricsSnapshot {F : Type} {sampleCount : ℕ} (observer : ContikiObserver D)
    (readings : PlatformReadings F D sampleCount) : NetworkMetrics D
  | .queue => readings.queueRatio
  | .loss => observer.lossEwma
  | .rtt => observer.rttMsEwma
  | .retry => observer.retryEwma + readings.macRetryRatio
  | .goodput => observer.goodputBpsEwma

end AdaptiveLowpan
