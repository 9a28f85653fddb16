import AdaptiveLowpan.Config
import AdaptiveLowpan.RationalArithmetic
import AdaptiveLowpan.WaveletBounds

/-! # What an accepted configuration guarantees

The bounds that the other components rely on, read off a successful validation. -/

namespace AdaptiveLowpan
open ByteWords CDouble

variable {D : Type} [CDouble D]

/-- The window, path and per-state bounds of an accepted configuration. -/
structure ConfigAccepted (config : AdaptiveConfig D) : Prop where
  powerOfTwo : isPowerOfTwo config.windowSize = true
  window_le : config.windowSize ≤ maxWindow
  levels_ne : config.waveletLevels ≠ 0
  levels_lt : config.waveletLevels < 64
  finest : 8 ≤ config.windowSize >>> (config.waveletLevels.toNat - 1)
  path_ne : config.uriPath.chars ≠ []
  quantBits_ge : ∀ state, 2 ≤ config.quantBits state
  quantBits_le : ∀ state, config.quantBits state ≤ 15
  blockSzx_le : ∀ state, config.blockSzx state ≤ 6

/-- A loop that ends without an error has run its body on every element. -/
theorem exists_of_foldlM_eq_ok {α β ε : Type} {f : β → α → Except ε β} {xs : List α} {b r : β}
    (h : xs.foldlM f b = .ok r) : ∀ x ∈ xs, ∃ b₁ b₂, f b₁ x = .ok b₂ := by
  induction xs generalizing b with
  | nil => simp
  | cons x xs ih =>
    rw [List.foldlM_cons] at h
    cases hx : f b x with
    | error e =>
      rw [hx] at h
      cases h
    | ok b' =>
      rw [hx] at h
      intro y hy
      rcases List.mem_cons.mp hy with rfl | hy
      · exact ⟨b, b', hx⟩
      · exact ih h y hy

theorem mem_all (state : AdaptiveState) : state ∈ AdaptiveState.all := by
  cases state <;> decide

theorem policy_of_validateState {config : AdaptiveConfig D} {state : AdaptiveState}
    {total total' : D} (h : validateState config state total = .ok total') :
    ¬config.thresholdGain state < lit 0 ∧ 2 ≤ config.quantBits state ∧
      config.quantBits state ≤ 15 ∧ config.blockSzx state ≤ 6 := by
  by_cases hbad : config.thresholdGain state < lit 0 ∨
      config.quantBits state < 2 ∨ config.quantBits state > 15 ∨
      config.blockSzx state > 6 ∨
      config.samplingFactor state ≤ lit 0 ∨ config.samplingFactor state > lit 1
  · rw [validateState, if_pos hbad] at h
    cases h
  · simp only [not_or] at hbad
    exact ⟨hbad.1, UInt32.not_lt.mp hbad.2.1, UInt32.not_lt.mp hbad.2.2.1,
      UInt8.not_lt.mp hbad.2.2.2.1⟩

theorem policy_of_validate {config : AdaptiveConfig D} (h : configValidate config = .ok ())
    (state : AdaptiveState) : ¬config.thresholdGain state < lit 0 ∧ 2 ≤ config.quantBits state ∧
      config.quantBits state ≤ 15 ∧ config.blockSzx state ≤ 6 := by
  rw [configValidate] at h
  split at h
  · cases h
  split at h
  · cases h
  split at h
  · cases h
  cases htotal : AdaptiveState.all.foldlM
      (fun total state => validateState config state total) (lit 0) with
  | error e =>
    rw [htotal] at h
    cases h
  | ok total =>
    obtain ⟨b₁, b₂, hstate⟩ := exists_of_foldlM_eq_ok htotal state (mem_all state)
    exact policy_of_validateState hstate

theorem configAccepted_of_validate {config : AdaptiveConfig D} (h : configValidate config = .ok ()) :
    ConfigAccepted config := by
  have hstates := policy_of_validate h
  rw [configValidate] at h
  split at h
  · cases h
  split at h
  · cases h
  rename_i hwindow
  split at h
  · cases h
  rename_i hpath
  simp only [not_or] at hwindow
  exact ⟨by simpa using hwindow.1, Nat.not_lt.mp hwindow.2.1, hwindow.2.2.1,
    UInt32.not_le.mp hwindow.2.2.2.1, Nat.not_lt.mp hwindow.2.2.2.2, hpath,
    fun s => (hstates s).2.1, fun s => (hstates s).2.2.1, fun s => (hstates s).2.2.2⟩

/-- The default configuration with the smallest window, on which a run is short. -/
def smallConfig : AdaptiveConfig ℚ := { configDefaults with windowSize := 8, waveletLevels := 1 }

example : configValidate smallConfig = .ok () := by decide +kernel

end AdaptiveLowpan
