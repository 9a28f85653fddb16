import Mathlib.Data.Nat.Basic
import Mathlib.Tactic.Common

/-! # Automata that hold a state

One state is entered only from one other state, its origin, and is then held until a
counter has run down, unless the automaton falls back to the origin. What such a rule
says about one step determines the length of every stay in the held state. -/

namespace AdaptiveLowpan.HoldRule

variable {S : Type} {origin held : S} {hold : ℕ}

inductive Step (origin held : S) (hold : ℕ) : S → ℕ → S → ℕ → Prop where
  | remain {n} : Step origin held hold origin n origin n
  | enter {n} : Step origin held hold origin n held hold
  | fallBack {n} : Step origin held hold held n origin 0
  | hold {n} : Step origin held hold held (n + 1) held n
  | leave {s} (hheld : s ≠ held) (horigin : s ≠ origin) : Step origin held hold held 0 s 0
  | elsewhere {s s' n} (horigin : s ≠ origin) (hheld : s ≠ held) (hnext : s' ≠ held) :
      Step origin held hold s n s' n

/-- A stay of `k` steps in the held state, after time `t`. -/
def Stay (held : S) (s : ℕ → S) (t k : ℕ) : Prop :=
  1 ≤ k ∧ ∀ i, 1 ≤ i → i ≤ k → s (t + i) = held

/-- What the rule promises about a whole sequence of states. -/
structure Discipline (origin held : S) (hold : ℕ) (s : ℕ → S) : Prop where
  /-- The held state is entered only from the origin. -/
  entered : ∀ t, s (t + 1) = held → s t ≠ held → s t = origin
  /-- A step out of the origin goes to the held state. -/
  left : ∀ t, s t = origin → s (t + 1) ≠ origin → s (t + 1) = held
  /-- A stay that was entered from the origin is not longer than the hold and one. -/
  stay_le : ∀ t k, s t = origin → Stay held s t k → k ≤ hold + 1
  /-- It has that length when it ends otherwise than by falling back. -/
  stay_eq : ∀ t k, s t = origin → Stay held s t k → s (t + k + 1) ≠ held →
    s (t + k + 1) ≠ origin → k = hold + 1

theorem Step.entered {s s' : S} {n n' : ℕ} (h : Step origin held hold s n s' n')
    (hnext : s' = held) (hne : s ≠ held) : s = origin := by
  cases h with
  | remain => rfl
  | enter => rfl
  | fallBack => exact absurd rfl hne
  | hold => exact absurd rfl hne
  | leave hheld => exact absurd rfl hne
  | elsewhere _ _ hother => exact absurd hnext hother

theorem Step.left {s s' : S} {n n' : ℕ} (h : Step origin held hold s n s' n')
    (hdistinct : origin ≠ held) (hs : s = origin) (hne : s' ≠ origin) : s' = held := by
  cases h with
  | remain => exact absurd rfl hne
  | enter => rfl
  | fallBack => exact absurd rfl hne
  | hold => rfl
  | leave => exact absurd hs.symm hdistinct
  | elsewhere horigin => exact absurd hs horigin

theorem Step.counter_of_enter {s s' : S} {n n' : ℕ} (h : Step origin held hold s n s' n')
    (hdistinct : origin ≠ held) (hs : s = origin) (hnext : s' = held) : n' = hold := by
  cases h with
  | remain => exact absurd hnext hdistinct
  | enter => rfl
  | fallBack => exact absurd hnext hdistinct
  | hold => exact absurd hs.symm hdistinct
  | leave hheld => exact absurd hnext hheld
  | elsewhere horigin => exact absurd hs horigin

theorem Step.counter_of_stay {s s' : S} {n n' : ℕ} (h : Step origin held hold s n s' n')
    (hdistinct : origin ≠ held) (hs : s = held) (hnext : s' = held) : n = n' + 1 := by
  cases h with
  | remain => exact absurd hnext hdistinct
  | enter => exact absurd hs hdistinct
  | fallBack => exact absurd hnext hdistinct
  | hold => rfl
  | leave hheld => exact absurd hnext hheld
  | elsewhere _ hne => exact absurd hs hne

theorem Step.counter_of_leave {s s' : S} {n n' : ℕ} (h : Step origin held hold s n s' n')
    (hs : s = held) (hheld : s' ≠ held) (horigin : s' ≠ origin) : n = 0 := by
  cases h with
  | remain => exact absurd rfl horigin
  | enter => exact absurd rfl hheld
  | fallBack => exact absurd rfl horigin
  | hold => exact absurd rfl hheld
  | leave => rfl
  | elsewhere _ hne => exact absurd hs hne

/-- The counter does not exceed the hold and is positive only in the held state. -/
theorem Step.bounded {s s' : S} {n n' : ℕ} (h : Step origin held hold s n s' n')
    (hdistinct : origin ≠ held) (hn : n ≤ hold ∧ (0 < n → s = held)) :
    n' ≤ hold ∧ (0 < n' → s' = held) := by
  cases h with
  | remain => exact ⟨hn.1, fun hpos => absurd (hn.2 hpos) hdistinct⟩
  | enter => exact ⟨Nat.le_refl hold, fun _ => rfl⟩
  | fallBack => exact ⟨Nat.zero_le hold, fun hpos => absurd hpos (Nat.lt_irrefl 0)⟩
  | hold => exact ⟨by omega, fun _ => rfl⟩
  | leave => exact ⟨Nat.zero_le hold, fun hpos => absurd hpos (Nat.lt_irrefl 0)⟩
  | elsewhere _ hheld => exact ⟨hn.1, fun hpos => absurd (hn.2 hpos) hheld⟩

/-! ## Whole runs -/

section Run

variable {s : ℕ → S} {n : ℕ → ℕ}

theorem bounded (h : ∀ t, Step origin held hold (s t) (n t) (s (t + 1)) (n (t + 1)))
    (hdistinct : origin ≠ held) (h0 : n 0 = 0) (t : ℕ) :
    n t ≤ hold ∧ (0 < n t → s t = held) := by
  induction t with
  | zero => exact ⟨by omega, fun hpos => by omega⟩
  | succ t ih => exact (h t).bounded hdistinct ih

/-- In a stay, the counter and the time spent add up to the hold and one. -/
theorem counter_add (h : ∀ t, Step origin held hold (s t) (n t) (s (t + 1)) (n (t + 1)))
    (hdistinct : origin ≠ held) {t k : ℕ} (ht : s t = origin) (hstay : Stay held s t k) :
    n (t + k) + k = hold + 1 := by
  obtain ⟨hpos, hheld⟩ := hstay
  induction k with
  | zero => omega
  | succ k ih =>
    have hlast := hheld (k + 1) (by omega) (Nat.le_refl _)
    by_cases hfirst : k = 0
    · subst hfirst
      have hn := (h t).counter_of_enter hdistinct ht hlast
      rw [Nat.zero_add]
      omega
    · have hprev := hheld k (by omega) (by omega)
      have hn := (h (t + k)).counter_of_stay hdistinct hprev hlast
      have hsum := ih (by omega) (fun i hi hik => hheld i hi (by omega))
      rw [Nat.add_assoc] at hn
      omega

theorem discipline (h : ∀ t, Step origin held hold (s t) (n t) (s (t + 1)) (n (t + 1)))
    (hdistinct : origin ≠ held) : Discipline origin held hold s where
  entered := fun t => (h t).entered
  left := fun t => (h t).left hdistinct
  stay_le := by
    intro t k ht hstay
    have hsum := counter_add h hdistinct ht hstay
    omega
  stay_eq := by
    intro t k ht hstay hheld horigin
    have hsum := counter_add h hdistinct ht hstay
    have hlast := hstay.2 k hstay.1 (Nat.le_refl k)
    have hzero := (h (t + k)).counter_of_leave hlast hheld horigin
    omega

end Run

end AdaptiveLowpan.HoldRule
