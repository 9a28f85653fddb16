import AdaptiveLowpan.ByteWords
import AdaptiveLowpan.CheckedMemory

/-! # Result codes, states, metrics and compile-time bounds -/

namespace AdaptiveLowpan
open CheckedMemory

abbrev stateCount : ℕ := 5
abbrev metricCount : ℕ := 5
abbrev maxWindow : ℕ := 256
abbrev maxRepresentation : ℕ := 64 + maxWindow * 4
abbrev maxBlockSize : ℕ := 1024
abbrev maxCoapPacket : ℕ := 1152
abbrev maxUriPath : ℕ := 63

/-- `UINT_MAX`, with a 32-bit `unsigned`. -/
abbrev uintMax : ℕ := 4294967295
abbrev uint16Max : ℕ := 65535
abbrev intMax : ℕ := 2147483647

inductive AdaptiveState where
  | good | normal | degraded | congested | recovery
  deriving DecidableEq

inductive AdaptiveMetric where
  | queue | loss | rtt | retry | goodput
  deriving DecidableEq

namespace AdaptiveState

/-- The states in the order of their numbers, as the loops over them run. -/
def all : List AdaptiveState := [good, normal, degraded, congested, recovery]

def toNat : AdaptiveState → ℕ
  | good => 0 | normal => 1 | degraded => 2 | congested => 3 | recovery => 4

/-- The state with a number below `stateCount`. -/
def ofNat? : ℕ → Option AdaptiveState
  | 0 => some good | 1 => some normal | 2 => some degraded | 3 => some congested
  | 4 => some recovery | _ => none

end AdaptiveState

def AdaptiveMetric.all : List AdaptiveMetric := [.queue, .loss, .rtt, .retry, .goodput]

inductive AdaptiveResult where
  | ok | complete | errArgument | errRange | errCapacity | errFormat | errIntegrity
  | errReplay | errCrypto | errIo | errUnsupported
  deriving DecidableEq

/-- The codes with which a call can stop: all but `ADAPTIVE_OK`. -/
abbrev Failure := { r : AdaptiveResult // r ≠ .ok }

namespace Failure

def argument : Failure := ⟨.errArgument, by decide⟩
def range : Failure := ⟨.errRange, by decide⟩
def capacity : Failure := ⟨.errCapacity, by decide⟩
def format : Failure := ⟨.errFormat, by decide⟩
def integrity : Failure := ⟨.errIntegrity, by decide⟩
def replay : Failure := ⟨.errReplay, by decide⟩
def crypto : Failure := ⟨.errCrypto, by decide⟩
def io : Failure := ⟨.errIo, by decide⟩
def unsupported : Failure := ⟨.errUnsupported, by decide⟩

end Failure

/-- The outcome of a call: its outputs on `ADAPTIVE_OK`, else how it stopped. -/
abbrev Outcome (α : Type) := Checked Failure α

def fail {α : Type} (r : Failure) : Outcome α := .error (.result r)

def AdaptiveResult.toOutcome (r : AdaptiveResult) : Outcome Unit :=
  if h : r = .ok then .ok () else fail ⟨r, h⟩

@[simp] theorem AdaptiveResult.toOutcome_eq_ok {r : AdaptiveResult} {u : Unit} :
    r.toOutcome = .ok u ↔ r = .ok := by
  unfold AdaptiveResult.toOutcome fail
  split <;> simp [*]

@[simp] theorem fail_ne_ok {α : Type} {r : Failure} {a : α} : fail r ≠ .ok a := by
  simp [fail]

@[simp] theorem fail_ne_fault {α : Type} {r : Failure} : (fail r : Outcome α) ≠ .error .fault := by
  simp [fail]

@[simp] theorem fail_bind {α β : Type} {r : Failure} (f : α → Outcome β) :
    (fail r >>= f) = fail r := rfl

end AdaptiveLowpan
