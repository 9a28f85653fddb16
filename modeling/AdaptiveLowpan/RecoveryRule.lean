import AdaptiveLowpan.HoldRule
import AdaptiveLowpan.Hmm

/-! # The recovery rule over whole runs

Whatever the most likely states are, `RECOVERY` is entered from `CONGESTED` only and
held for the configured number of observations. -/

namespace AdaptiveLowpan
open CDouble

variable {D : Type} [CDouble D]

def hmmTrace (hmm : Hmm D) (observations : ℕ → NetworkMetrics D) : ℕ → Hmm D
  | 0 => hmm
  | t + 1 => (hmmStep (hmmTrace hmm observations t) (observations t)).2.2

def reportedState (hmm : Hmm D) (observations : ℕ → NetworkMetrics D) : ℕ → AdaptiveState
  | 0 => hmm.state
  | t + 1 => (hmmStep (hmmTrace hmm observations t) (observations t)).1

/-- The rule holds `RECOVERY` after `CONGESTED`, for every most likely state. -/
theorem selectState_step (source : AdaptiveState) (hold remaining : UInt32)
    (candidate : AdaptiveState) :
    HoldRule.Step .congested .recovery hold.toNat source remaining.toNat
      (selectState source hold remaining candidate).1
      (selectState source hold remaining candidate).2.toNat := by
  have hnormal : AdaptiveState.normal ≠ .recovery := by decide
  have hnormal' : AdaptiveState.normal ≠ .congested := by decide
  unfold selectState
  by_cases hleft : source = .congested ∧ candidate ≠ .congested
  · rw [if_pos hleft, hleft.1]
    exact .enter
  rw [if_neg hleft]
  by_cases hsource : source = .recovery
  · rw [if_pos hsource, hsource]
    by_cases hback : candidate = .congested
    · rw [if_pos hback]
      exact .fallBack
    rw [if_neg hback]
    by_cases hpos : remaining > 0
    · rw [if_pos hpos]
      have hn : 0 < remaining.toNat := hpos
      have hone : (1 : UInt32) ≤ remaining := by
        rw [UInt32.le_iff_toNat_le, UInt32.toNat_one]
        exact hn
      have hdown : remaining.toNat = (remaining - 1).toNat + 1 := by
        rw [UInt32.toNat_sub_of_le _ _ hone, UInt32.toNat_one]
        omega
      rw [hdown]
      exact .hold
    · rw [if_neg hpos]
      have hzero : remaining.toNat = 0 := by
        have hle := UInt32.le_iff_toNat_le.mp (UInt32.not_lt.mp hpos)
        exact Nat.le_zero.mp hle
      split
      · rw [hzero]
        exact .leave hnormal hnormal'
      · rename_i hnot
        rw [hzero]
        exact .leave hnot hback
  rw [if_neg hsource]
  by_cases hstay : source = .congested
  · -- with `CONGESTED` still the most likely state
    have hcandidate : candidate = .congested := by
      by_contra hne
      exact hleft ⟨hstay, hne⟩
    rw [hstay, hcandidate]
    exact .remain
  · split
    · exact .elsewhere hstay hsource hnormal
    · rename_i hnot
      exact .elsewhere hstay hsource hnot

theorem hmmStep_step (hmm : Hmm D) (normalized : NetworkMetrics D) :
    HoldRule.Step .congested .recovery hmm.recoveryHold.toNat hmm.state
      hmm.recoveryRemaining.toNat (hmmStep hmm normalized).2.2.state
      (hmmStep hmm normalized).2.2.recoveryRemaining.toNat :=
  selectState_step hmm.state hmm.recoveryHold hmm.recoveryRemaining _

theorem hmmTrace_recoveryHold (hmm : Hmm D) (observations : ℕ → NetworkMetrics D) (t : ℕ) :
    (hmmTrace hmm observations t).recoveryHold = hmm.recoveryHold := by
  induction t with
  | zero => rfl
  | succ t ih => exact ih

theorem reportedState_eq (hmm : Hmm D) (observations : ℕ → NetworkMetrics D) (t : ℕ) :
    reportedState hmm observations t = (hmmTrace hmm observations t).state := by
  cases t with
  | zero => rfl
  | succ t => rfl

theorem hmmTrace_step (hmm : Hmm D) (observations : ℕ → NetworkMetrics D) (t : ℕ) :
    HoldRule.Step .congested .recovery hmm.recoveryHold.toNat
      (hmmTrace hmm observations t).state (hmmTrace hmm observations t).recoveryRemaining.toNat
      (hmmTrace hmm observations (t + 1)).state
      (hmmTrace hmm observations (t + 1)).recoveryRemaining.toNat := by
  have hstep := hmmStep_step (hmmTrace hmm observations t) (observations t)
  rw [hmmTrace_recoveryHold] at hstep
  exact hstep

/-- The reported states follow the rule, and in every reachable model the remaining hold
is within the configured one and positive only in `RECOVERY`. -/
theorem hmmInit_recovery_discipline (config : AdaptiveConfig D)
    (observations : ℕ → NetworkMetrics D) :
    HoldRule.Discipline .congested .recovery config.recoveryHold.toNat
        (reportedState (hmmInit config) observations) ∧
    ∀ t, (hmmTrace (hmmInit config) observations t).recoveryRemaining ≤
          (hmmTrace (hmmInit config) observations t).recoveryHold ∧
        ((hmmTrace (hmmInit config) observations t).recoveryRemaining > 0 →
          (hmmTrace (hmmInit config) observations t).state = .recovery) := by
  have hstep := hmmTrace_step (hmmInit config) observations
  have hdistinct : AdaptiveState.congested ≠ .recovery := by decide
  constructor
  · have hreported : reportedState (hmmInit config) observations =
        fun t => (hmmTrace (hmmInit config) observations t).state := by
      funext t
      exact reportedState_eq (hmmInit config) observations t
    rw [hreported]
    exact HoldRule.discipline hstep hdistinct
  · intro t
    have hbound := HoldRule.bounded (s := fun t => (hmmTrace (hmmInit config) observations t).state)
      hstep hdistinct rfl t
    rw [hmmTrace_recoveryHold]
    exact ⟨UInt32.le_iff_toNat_le.mpr hbound.1, hbound.2⟩

end AdaptiveLowpan
