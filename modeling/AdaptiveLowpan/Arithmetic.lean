import Mathlib.Data.Rat.Defs

/-! # The floating-point operations of the sources

The sources compute in `double` and store samples and coefficients as `float`.
Every definition that touches numbers is written over the operations below, so
that one definition serves the machine arithmetic, about which nothing is
assumed, and exact real arithmetic. -/

namespace AdaptiveLowpan

/-- The operations of `double` that the sources use. A literal of the source is
the rounding `lit q` of the rational `q` it denotes. -/
class CDouble (D : Type) extends Add D, Sub D, Mul D, Div D, Neg D, LT D, LE D where
  lit : ℚ → D
  decLt (a b : D) : Decidable (a < b)
  decLe (a b : D) : Decidable (a ≤ b)
  fabs : D → D
  sqrt : D → D
  log : D → D
  exp : D → D
  copysign : D → D → D
  isfinite : D → Bool
  lround : D → ℤ

instance CDouble.decidableLt {D : Type} [CDouble D] (a b : D) : Decidable (a < b) := CDouble.decLt a b

instance CDouble.decidableLe {D : Type} [CDouble D] (a b : D) : Decidable (a ≤ b) := CDouble.decLe a b

/-- The operations of `float`, with the conversions to and from `double` and the
32-bit pattern that `memcpy` copies. -/
class CFloat (F : Type) (D : outParam Type) [CDouble D] where
  toDouble : F → D
  ofDouble : D → F
  add : F → F → F
  fabsf : F → F
  /-- The product of an `int`, converted to `float`, and a `float`. -/
  mulInt : ℤ → F → F
  isfinite : F → Bool
  toBits : F → UInt32
  ofBits : UInt32 → F

end AdaptiveLowpan
