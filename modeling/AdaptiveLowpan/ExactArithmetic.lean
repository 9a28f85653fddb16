import AdaptiveLowpan.Arithmetic
import AdaptiveLowpan.Types
import Mathlib.Analysis.Real.Sqrt

/-! # Exact real arithmetic

The real numbers in the place of `double`, with any functions in the place of `log` and
`exp`. Over the second arithmetic below, a computation is defined only if it divides by
positive numbers and takes square roots of positive numbers: that it computes the same
as over the real numbers says that it stays in this domain. -/

namespace AdaptiveLowpan

/-- The functions of the mathematical library that exact arithmetic leaves open. -/
class MathFunctions where
  log : ℝ → ℝ
  exp : ℝ → ℝ

/-- The nearest integer, away from zero where two are equally near. -/
noncomputable def realLround (x : ℝ) : ℤ :=
  if x < 0 then -⌊-x + (1 / 2 : ℚ)⌋ else ⌊x + (1 / 2 : ℚ)⌋

noncomputable instance [MathFunctions] : CDouble ℝ where
  lit q := q
  decLt _ _ := Classical.propDecidable _
  decLe _ _ := Classical.propDecidable _
  fabs x := |x|
  sqrt x := √x
  log := MathFunctions.log
  exp := MathFunctions.exp
  copysign x y := if y < 0 then -|x| else |x|
  isfinite _ := true
  lround := realLround

/-- The patterns that exact arithmetic stores a number as, which it leaves open too. -/
class FloatPatterns where
  toBits : ℝ → UInt32
  ofBits : UInt32 → ℝ

/-- Samples and coefficients as they are, without a rounding to `float`. -/
noncomputable instance [MathFunctions] [FloatPatterns] : CFloat ℝ ℝ where
  toDouble x := x
  ofDouble x := x
  add x y := x + y
  fabsf x := |x|
  mulInt n x := n * x
  isfinite _ := true
  toBits := FloatPatterns.toBits
  ofBits := FloatPatterns.ofBits

/-- A real number, or the result of a computation that left its domain. -/
inductive Guarded where
  | value (x : ℝ)
  | undefined

namespace Guarded

def map (f : ℝ → ℝ) : Guarded → Guarded
  | value x => value (f x)
  | undefined => undefined

def map₂ (f : ℝ → ℝ → ℝ) : Guarded → Guarded → Guarded
  | value x, value y => value (f x y)
  | _, _ => undefined

def Both (r : ℝ → ℝ → Prop) : Guarded → Guarded → Prop
  | value x, value y => r x y
  | _, _ => False

noncomputable def divPos : Guarded → Guarded → Guarded
  | value x, value y => open Classical in if 0 < y then value (x / y) else undefined
  | _, _ => undefined

noncomputable def sqrtPos : Guarded → Guarded
  | value x => open Classical in if 0 < x then value (√x) else undefined
  | undefined => undefined

end Guarded

noncomputable instance [MathFunctions] : CDouble Guarded where
  add := Guarded.map₂ (· + ·)
  sub := Guarded.map₂ (· - ·)
  mul := Guarded.map₂ (· * ·)
  div := Guarded.divPos
  neg := Guarded.map (- ·)
  lt := Guarded.Both (· < ·)
  le := Guarded.Both (· ≤ ·)
  lit q := .value q
  decLt _ _ := Classical.propDecidable _
  decLe _ _ := Classical.propDecidable _
  fabs := Guarded.map (|·|)
  sqrt := Guarded.sqrtPos
  log := Guarded.map MathFunctions.log
  exp := Guarded.map MathFunctions.exp
  copysign := Guarded.map₂ fun x y => CDouble.copysign x y
  isfinite
    | .value _ => true
    | .undefined => false
  lround
    | .value x => realLround x
    | .undefined => 0

namespace Guarded

theorem ite_value {c c' : Prop} [Decidable c] [Decidable c'] (h : c ↔ c') (x y : ℝ) :
    (if c then value x else value y) = value (if c' then x else y) := by
  by_cases hc : c
  · rw [if_pos hc, if_pos (h.mp hc)]
  · rw [if_neg hc, if_neg (mt h.mpr hc)]

end Guarded

variable [MathFunctions]

theorem lit_real (q : ℚ) : (CDouble.lit q : ℝ) = q := rfl

namespace Guarded

@[simp] theorem value_add (x y : ℝ) : value x + value y = value (x + y) := rfl
@[simp] theorem value_sub (x y : ℝ) : value x - value y = value (x - y) := rfl
@[simp] theorem value_mul (x y : ℝ) : value x * value y = value (x * y) := rfl
@[simp] theorem value_neg (x : ℝ) : -value x = value (-x) := rfl
@[simp] theorem value_lt (x y : ℝ) : value x < value y ↔ x < y := Iff.rfl
@[simp] theorem value_le (x y : ℝ) : value x ≤ value y ↔ x ≤ y := Iff.rfl
@[simp] theorem lit_eq (q : ℚ) : (CDouble.lit q : Guarded) = value (CDouble.lit q) := rfl
@[simp] theorem fabs_value (x : ℝ) : CDouble.fabs (value x) = value (CDouble.fabs x) := rfl
@[simp] theorem log_value (x : ℝ) : CDouble.log (value x) = value (CDouble.log x) := rfl
@[simp] theorem exp_value (x : ℝ) : CDouble.exp (value x) = value (CDouble.exp x) := rfl
@[simp] theorem isfinite_value (x : ℝ) : CDouble.isfinite (value x) = CDouble.isfinite x := rfl

theorem value_div {y : ℝ} (x : ℝ) (hy : 0 < y) : value x / value y = value (x / y) := if_pos hy

theorem sqrt_value {x : ℝ} (hx : 0 < x) : CDouble.sqrt (value x) = value (CDouble.sqrt x) :=
  if_pos hx

end Guarded

end AdaptiveLowpan
