import AdaptiveLowpan.Arithmetic
import Mathlib.Algebra.Order.Ring.Rat
import Mathlib.Data.Rat.Floor

/-! # An arithmetic that computes

Rational numbers in the place of `double`, and 32-bit patterns with the meaning of
the binary32 format in the place of `float`. The definitions can be run on it. -/

namespace AdaptiveLowpan

structure Single where
  bits : UInt32
  deriving DecidableEq

namespace Single

def isfinite (x : Single) : Bool := x.bits.toNat / 2 ^ 23 % 256 ≠ 255

def magnitude (n : ℕ) : ℚ :=
  let exponent : ℕ := n / 2 ^ 23
  let fraction : ℕ := n % 2 ^ 23
  if exponent = 0 then fraction / 2 ^ 149
  else if exponent < 150 then (2 ^ 23 + fraction) / 2 ^ (150 - exponent)
  else (2 ^ 23 + fraction) * 2 ^ (exponent - 150)

def value (x : Single) : ℚ :=
  if x.bits.toNat < 2 ^ 31 then magnitude x.bits.toNat
  else -magnitude (x.bits.toNat - 2 ^ 31)

/-- The low 31 bits of the largest magnitude up to `q`, found from the top bit down. -/
def truncate (q : ℚ) : ℕ → ℕ → ℕ
  | 0, n => n
  | k + 1, n => truncate q k (if magnitude (n + 2 ^ k) ≤ q then n + 2 ^ k else n)

def infinity : ℕ := 0x7f800000

/-- The nearest pattern, an even one where two are equally near, and an infinity from the
midpoint behind the largest finite magnitude on. -/
def ofRat (q : ℚ) : Single :=
  let n := truncate |q| 31 0
  let below := |q| - magnitude n
  let above := magnitude (n + 1) - |q|
  let rounded := if above < below ∨ (above = below ∧ n % 2 = 1) then n + 1 else n
  let rounded := min rounded infinity
  ⟨UInt32.ofNat (if q < 0 then rounded + 2 ^ 31 else rounded)⟩

end Single

/-- A number rounded down to forty binary places. -/
def fixedPoint (q : ℚ) : ℚ := ⌊q * 2 ^ 40⌋ / 2 ^ 40

def newtonSqrt (q : ℚ) : ℕ → ℚ → ℚ
  | 0, x => x
  | n + 1, x => newtonSqrt q n (fixedPoint ((x + q / x) / 2))

def expSeries (q : ℚ) : ℕ → ℕ → ℚ → ℚ
  | 0, _, term => term
  | n + 1, k, term => term + expSeries q n (k + 1) (fixedPoint (term * q / k))

/-- The first terms of the series of `log ((1 + t) / (1 - t))`. -/
def logSeries (t : ℚ) : ℕ → ℕ → ℚ → ℚ
  | 0, _, _ => 0
  | n + 1, k, power => 2 * power / k + logSeries t n (k + 2) (fixedPoint (power * t * t))

instance : CDouble ℚ where
  lit q := q
  decLt _ _ := inferInstance
  decLe _ _ := inferInstance
  fabs q := |q|
  sqrt q := if q ≤ 0 then 0 else newtonSqrt q 8 (if q < 1 then 1 else q)
  log q := logSeries ((q - 1) / (q + 1)) 12 1 ((q - 1) / (q + 1))
  exp q := if q < 0 then 1 / expSeries (-q) 16 1 1 else expSeries q 16 1 1
  copysign x y := if y < 0 then -|x| else |x|
  isfinite _ := true
  lround q := if q < 0 then -⌊-q + 1 / 2⌋ else ⌊q + 1 / 2⌋

instance : CFloat Single ℚ where
  toDouble := Single.value
  ofDouble := Single.ofRat
  add x y := Single.ofRat (x.value + y.value)
  fabsf x := ⟨UInt32.ofNat (x.bits.toNat % 2 ^ 31)⟩
  mulInt n x := Single.ofRat (n * x.value)
  isfinite := Single.isfinite
  toBits := Single.bits
  ofBits := Single.mk

example : (Single.ofRat 1).bits = 0x3f800000 := by decide +kernel

end AdaptiveLowpan
