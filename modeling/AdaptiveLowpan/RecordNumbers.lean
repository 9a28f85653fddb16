import AdaptiveLowpan.OqsRecords

/-! # The numbers and nonces of one session

A session is called in any order: it seals, fails to seal, and opens. Every seal past
the capacity check takes the next number, also when the encryption then fails, so no
number and no nonce is taken twice before the counter has gone round. -/

namespace AdaptiveLowpan
open ByteWords CheckedMemory

/-! ## Numbers from a counter -/

/-- The numbers that `count` calls take from a 64-bit counter. -/
def numbersFrom : UInt64 → ℕ → List UInt64
  | _, 0 => []
  | start, count + 1 => start :: numbersFrom (start + 1) count

theorem mem_numbersFrom {start number : UInt64} {count : ℕ}
    (h : number ∈ numbersFrom start count) : ∃ i < count, number = start + UInt64.ofNat i := by
  induction count generalizing start with
  | zero => cases h
  | succ count ih =>
    rcases List.mem_cons.mp h with rfl | h
    · exact ⟨0, Nat.succ_pos count, (UInt64.add_zero _).symm⟩
    · obtain ⟨i, hi, rfl⟩ := ih h
      refine ⟨i + 1, by omega, ?_⟩
      rw [UInt64.add_assoc, UInt64.ofNat_add, UInt64.add_comm 1]
      rfl

/-- A counter that does not go round gives no number twice. -/
theorem nodup_numbersFrom {start : UInt64} {count : ℕ} (h : count ≤ 2 ^ 64) :
    (numbersFrom start count).Nodup := by
  induction count generalizing start with
  | zero => exact List.nodup_nil
  | succ count ih =>
    rw [numbersFrom, List.nodup_cons]
    refine ⟨?_, ih (by omega)⟩
    intro hmem
    obtain ⟨i, hi, hround⟩ := mem_numbersFrom hmem
    rw [UInt64.add_assoc] at hround
    have hzero := UInt64.toNat_inj.mpr (UInt64.left_eq_add.mp hround)
    rw [UInt64.toNat_add, UInt64.toNat_one, UInt64.toNat_ofNat', UInt64.toNat_zero] at hzero
    omega

/-! ## Calls on a session -/

/-- The calls that a session is given, each with its arguments. -/
inductive SessionCall where
  | sealing (plaintext aad : Bytes) (recordCapacity : ℕ)
  | opening (record : Option Bytes) (aad : Bytes) (plaintextCapacity : ℕ)

/-- A call of `adaptive_security_seal`: the context before it, its arguments and its
outcome. -/
structure SealAttempt (σ : Type) where
  context : σ
  plaintext : Bytes
  aad : Bytes
  recordCapacity : ℕ
  outcome : Outcome Bytes

variable {σ : Type}

/-- The attempts to seal in a sequence of calls, and the context after it. -/
def sessionRun (P : SecurityProvider σ) : σ → List SessionCall → List (SealAttempt σ) × σ
  | context, [] => ([], context)
  | context, .sealing plaintext aad recordCapacity :: calls =>
    let (outcome, after) := securitySeal P context plaintext aad recordCapacity
    let (attempts, last) := sessionRun P after calls
    (⟨context, plaintext, aad, recordCapacity, outcome⟩ :: attempts, last)
  | context, .opening record aad plaintextCapacity :: calls =>
    sessionRun P (securityOpen P context record aad plaintextCapacity).2 calls

def SealAttempt.passed (attempt : SealAttempt σ) : Bool := attempt.outcome ≠ fail .capacity

def passedSeals (P : SecurityProvider σ) (context : σ) (calls : List SessionCall) :
    List (SealAttempt σ) := (sessionRun P context calls).1.filter (·.passed)

def producedRecords (P : SecurityProvider σ) (context : σ) (calls : List SessionCall) :
    List Bytes := (sessionRun P context calls).1.filterMap (·.outcome.toOption)

/-- The laws of a seal that numbers its records: a number is taken exactly past the
capacity check. -/
structure Numbering (P : SecurityProvider σ) where
  sequence : σ → UInt64
  seal_refused : ∀ {c c' plaintext aad capacity},
    P.sealFn c plaintext aad capacity = (fail .capacity, c') → c' = c
  seal_taken : ∀ {c c' plaintext aad capacity r}, P.sealFn c plaintext aad capacity = (r, c') →
    r ≠ fail .capacity → sequence c' = sequence c + 1
  seal_number : ∀ {c c' plaintext aad capacity record},
    P.sealFn c plaintext aad capacity = (.ok record, c') → recordSequence record = sequence c
  open_keeps : ∀ {c c' record aad capacity r}, P.openFn c record aad capacity = (r, c') →
    sequence c' = sequence c

variable {P : SecurityProvider σ}

theorem Numbering.securityOpen_keeps (N : Numbering P) (context : σ) (record : Option Bytes)
    (aad : Bytes) (capacity : ℕ) :
    N.sequence (securityOpen P context record aad capacity).2 = N.sequence context := by
  cases record with
  | none => rfl
  | some record =>
    have hopen : P.openFn context record aad capacity = (_, _) := rfl
    exact N.open_keeps hopen

/-- The attempts past the capacity check take consecutive numbers. -/
theorem Numbering.numbers_passedSeals (N : Numbering P) (context : σ) (calls : List SessionCall) :
    (passedSeals P context calls).map (fun attempt => N.sequence attempt.context) =
      numbersFrom (N.sequence context) (passedSeals P context calls).length := by
  induction calls generalizing context with
  | nil => rfl
  | cons call calls ih =>
    cases call with
    | opening record aad capacity =>
      have hrest := ih (securityOpen P context record aad capacity).2
      rw [N.securityOpen_keeps] at hrest
      exact hrest
    | sealing plaintext aad capacity =>
      cases hseal : P.sealFn context plaintext aad capacity with
      | mk outcome after =>
        have hrest := ih after
        by_cases hfull : outcome = fail .capacity
        · subst hfull
          obtain rfl := N.seal_refused hseal
          simpa [passedSeals, sessionRun, securitySeal, hseal, SealAttempt.passed] using hrest
        · rw [N.seal_taken hseal hfull] at hrest
          simpa [passedSeals, sessionRun, securitySeal, hseal, SealAttempt.passed, hfull,
            numbersFrom] using hrest

theorem Numbering.producedRecords_sublist (N : Numbering P) (context : σ)
    (calls : List SessionCall) :
    ((producedRecords P context calls).map recordSequence).Sublist
      ((passedSeals P context calls).map (fun attempt => N.sequence attempt.context)) := by
  induction calls generalizing context with
  | nil => exact List.Sublist.slnil
  | cons call calls ih =>
    cases call with
    | opening record aad capacity => exact ih _
    | sealing plaintext aad capacity =>
      cases hseal : P.sealFn context plaintext aad capacity with
      | mk outcome after =>
        have hrest := ih after
        cases outcome with
        | ok record =>
          have hnumber := N.seal_number hseal
          simpa [producedRecords, passedSeals, sessionRun, securitySeal, hseal,
            SealAttempt.passed, Except.toOption, fail, hnumber] using hrest
        | error e =>
          by_cases hfull : (Except.error e : Outcome Bytes) = fail .capacity
          · obtain rfl : e = .result .capacity := Except.error.inj hfull
            simpa [producedRecords, passedSeals, sessionRun, securitySeal, hseal,
              SealAttempt.passed, Except.toOption, fail] using hrest
          · simpa [producedRecords, passedSeals, sessionRun, securitySeal, hseal,
              SealAttempt.passed, Except.toOption, hfull] using hrest.cons _

/-- Fewer seals than numbers give every record a number of its own. -/
theorem Numbering.nodup_producedRecords (N : Numbering P) {context : σ}
    {calls : List SessionCall} (h : (passedSeals P context calls).length < 2 ^ 64) :
    ((producedRecords P context calls).map recordSequence).Nodup := by
  apply (N.producedRecords_sublist context calls).nodup
  rw [N.numbers_passedSeals]
  exact nodup_numbersFrom h.le

end AdaptiveLowpan
