import AdaptiveLowpan.Arithmetic
import AdaptiveLowpan.Types
import Mathlib.Data.List.Sort

/-! # The db4 transform, the noise estimate and soft thresholding

The loops run over explicit `values` and `scratch` buffers, and every access is
checked against the buffer it indexes. -/

namespace AdaptiveLowpan
open CheckedMemory CDouble CFloat

def db4LowTaps : List ℚ :=
  [-0.010597401784997278, 0.032883011666982945, 0.030841381835986965, -0.187034811718881140,
    -0.027983769416983850, 0.630880767929858700, 0.714846570552915400, 0.230377813308896400]

variable {F D : Type} [CDouble D] [CFloat F D]

def db4Low (index : ℕ) : D := lit (db4LowTaps.getD index 0)

def db4High (index : ℕ) : D :=
  let value := db4Low (7 - index)
  if index % 2 ≠ 0 then value else -value

/-- `0.0f`, which is also what clearing the bytes of a `float` leaves. -/
def zeroFloat : F := ofDouble (lit 0)

def validateTransform (count levels scratchCount : ℕ) : Outcome Unit :=
  if count < 8 ∨ count > maxWindow ∨ levels = 0 ∨ levels ≥ 64 ∨ scratchCount < count then
    fail .range
  else if count >>> (levels - 1) < 8 then fail .range
  else if count % 2 ^ levels ≠ 0 ∨ count / 2 ^ levels < 1 then fail .range
  else .ok ()

/-- The `i`-th low-pass and high-pass outputs of one analysis level. -/
def forwardPair (values : List F) (current i : ℕ) : Outcome (D × D) :=
  loop (fun k acc => do
    let value ← readAt values ((2 * i + k) % current)
    return (acc.1 + db4Low k * toDouble value, acc.2 + db4High k * toDouble value))
    0 8 (lit 0, lit 0)

def forwardLevel (current : ℕ) (values scratch : List F) : Outcome (List F × List F) := do
  let half := current / 2
  let scratch ← loop (fun i scratch => do
    let (low, high) ← forwardPair values current i
    let scratch ← writeAt scratch i (ofDouble low)
    writeAt scratch (half + i) (ofDouble high)) 0 half scratch
  let block ← readSlice scratch 0 current
  let values ← overwrite values block
  return (values, scratch)

def forwardLevels : ℕ → ℕ → List F → List F → Outcome (List F)
  | 0, _, values, _ => .ok values
  | levels + 1, current, values, scratch => do
    let (values, scratch) ← forwardLevel current values scratch
    forwardLevels levels (current / 2) values scratch

def db4Forward (values : List F) (count levels : ℕ) (scratch : List F) : Outcome (List F) := do
  validateTransform count levels scratch.length
  forwardLevels levels count values scratch

def inverseLevel (current : ℕ) (coefficients scratch : List F) : Outcome (List F × List F) := do
  let reconstructed := current * 2
  let scratch ← overwrite scratch (List.replicate reconstructed zeroFloat)
  let scratch ← loop (fun i scratch => loop (fun k scratch => do
    let index := (2 * i + k) % reconstructed
    let low ← readAt coefficients i
    let high ← readAt coefficients (current + i)
    let sum ← readAt scratch index
    writeAt scratch index
      (add sum (ofDouble (db4Low k * toDouble low + db4High k * toDouble high)))) 0 8 scratch)
    0 current scratch
  let block ← readSlice scratch 0 reconstructed
  let coefficients ← overwrite coefficients block
  return (coefficients, scratch)

def inverseLevels : ℕ → ℕ → List F → List F → Outcome (List F)
  | 0, _, coefficients, _ => .ok coefficients
  | levels + 1, current, coefficients, scratch => do
    let (coefficients, scratch) ← inverseLevel current coefficients scratch
    inverseLevels levels (current * 2) coefficients scratch

def db4Inverse (coefficients : List F) (count levels : ℕ) (scratch : List F) :
    Outcome (List F) := do
  validateTransform count levels scratch.length
  inverseLevels levels (count >>> levels) coefficients scratch

/-- `adaptive_wavelet_noise_sigma`: the median magnitude of the finest details. -/
def noiseSigma (coefficients : List F) (scratchCount : ℕ) : D :=
  let count := coefficients.length
  if count < 2 ∨ scratchCount < count / 2 then lit 0
  else
    let detailCount := count / 2
    let details := ((coefficients.drop detailCount).take detailCount).map fabsf
    let sorted := details.insertionSort (fun a b => (toDouble a : D) ≤ toDouble b)
    let middle := sorted.getD (detailCount / 2) zeroFloat
    let median :=
      if detailCount % 2 ≠ 0 then toDouble middle
      else lit 0.5 * toDouble (add (sorted.getD (detailCount / 2 - 1) zeroFloat) middle)
    median / lit 0.6744897501960817

def softThresholdOne (threshold : D) (coefficient : F) : F :=
  let value := toDouble coefficient
  let magnitude := fabs value
  if magnitude ≤ threshold then zeroFloat
  else ofDouble (copysign (magnitude - threshold) value)

def softThreshold (coefficients : List F) (firstDetail : ℕ) (threshold : D) : List F :=
  if firstDetail > coefficients.length ∨ threshold < lit 0 then coefficients
  else coefficients.take firstDetail ++
    (coefficients.drop firstDetail).map (softThresholdOne threshold)

end AdaptiveLowpan
