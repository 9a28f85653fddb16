import AdaptiveLowpan.CodecDistortion
import AdaptiveLowpan.Loopback
import AdaptiveLowpan.StoredScales

/-! # The error that the demonstration prints

The main loop compares each window with what the receiver has decoded. In exact arithmetic but
for the scale, which is rounded to a pattern when it is stored, the error of every row is within
the threshold and little more than half a step of the row's own window. -/

namespace AdaptiveLowpan
open ByteWords CheckedMemory CDouble CFloat Finset

section Rows

variable {F D σ : Type} [CDouble D] [CFloat F D]

end Rows

section Exact

variable [MathFunctions] [patterns : FloatPatterns]

/-- What exact arithmetic needs of an input: a full window of bounded samples whose step, in
whatever state, is in the range of the normal patterns. -/
structure LoopbackInput.Representable (config : AdaptiveConfig ℝ) (B : ℝ)
    (input : LoopbackInput ℝ ℝ) : Prop where
  length : input.source.length = config.windowSize
  bounded : ∀ x ∈ input.source, |x| ≤ B
  scale : ∀ state a, codecAnalyze input.source state config = .ok a →
    1 / 2 ^ 126 ≤ a.scale ∧ a.scale ≤ 2 ^ 127

theorem LoopbackInput.Representable.good {config : AdaptiveConfig ℝ} {B : ℝ}
    {input : LoopbackInput ℝ ℝ} (h : input.Representable config B)
    (hvalid : configValidate config = .ok ()) : input.Good config := by
  refine ⟨h.length, fun _ => rfl, fun _ _ ha => ⟨rfl, ?_⟩⟩
  rw [lit_real, Rat.cast_zero]
  exact (codecAnalyze_pos hvalid ha).2.not_ge

variable {σ : Type} {P : SecurityProvider σ} {L : RecordLayer P} {config : AdaptiveConfig ℝ} {B : ℝ}

end Exact

end AdaptiveLowpan
