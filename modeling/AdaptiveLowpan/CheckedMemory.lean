import Mathlib.Data.List.Basic

/-! # Memory accesses that are checked against their object

An access outside its object is the outcome `fault`, apart from every result code
of the program. A call that is proved never to end in `fault` reads and writes
only inside the objects it was given. Counting loops carry one invariant rule. -/

namespace AdaptiveLowpan.CheckedMemory

/-- How a call ends without a value: with a result code, or in an access outside
the object it indexes. -/
inductive Stop (R : Type) where
  | result (code : R)
  | fault
  deriving DecidableEq

variable {R α β : Type}

abbrev Checked (R α : Type) := Except (Stop R) α

@[simp] theorem ok_bind (a : α) (f : α → Checked R β) : (Except.ok a >>= f) = f a := rfl

@[simp] theorem error_bind (e : Stop R) (f : α → Checked R β) :
    (Except.error e >>= f) = .error e := rfl

/-- A sequence of two calls returns exactly when both do. -/
theorem bind_eq_ok_iff (x : Checked R α) (f : α → Checked R β) (b : β) :
    (x >>= f) = .ok b ↔ ∃ a, x = .ok a ∧ f a = .ok b := by
  rcases x with e | a <;> simp

/-- A sequence of two calls stays inside its objects when both do. -/
theorem bind_ne_fault {x : Checked R α} {f : α → Checked R β} (hx : x ≠ .error .fault)
    (hf : ∀ a, x = .ok a → f a ≠ .error .fault) : (x >>= f) ≠ .error .fault := by
  cases x with
  | error e => simpa using hx
  | ok a => exact hf a rfl

def readAt (xs : List α) (i : ℕ) : Checked R α :=
  match xs[i]? with
  | some x => .ok x
  | none => .error .fault

def writeAt (xs : List α) (i : ℕ) (x : α) : Checked R (List α) :=
  if i < xs.length then .ok (xs.set i x) else .error .fault

/-- `count` elements from `start` on, as a block copy reads them. -/
def readSlice (xs : List α) (start count : ℕ) : Checked R (List α) :=
  if start + count ≤ xs.length then .ok ((xs.drop start).take count) else .error .fault

def overwrite (xs block : List α) : Checked R (List α) :=
  if block.length ≤ xs.length then .ok (block ++ xs.drop block.length) else .error .fault

/-- Appends `xs` to the part of an object of size `capacity` written so far. -/
def emit (capacity : ℕ) (out xs : List α) : Checked R (List α) :=
  if out.length + xs.length ≤ capacity then .ok (out ++ xs) else .error .fault

theorem readAt_eq_ok {xs : List α} {i : ℕ} {x : α} :
    (readAt xs i : Checked R α) = .ok x ↔ xs[i]? = some x := by
  unfold readAt
  cases xs[i]? <;> simp

theorem readAt_of_lt {xs : List α} {i : ℕ} (h : i < xs.length) :
    (readAt xs i : Checked R α) = .ok (xs[i]) := by
  simp [readAt, h]

theorem writeAt_of_lt {xs : List α} {i : ℕ} (x : α) (h : i < xs.length) :
    (writeAt xs i x : Checked R (List α)) = .ok (xs.set i x) := if_pos h

theorem readSlice_of_le {xs : List α} {start count : ℕ} (h : start + count ≤ xs.length) :
    (readSlice xs start count : Checked R (List α)) = .ok ((xs.drop start).take count) := if_pos h

theorem overwrite_of_le {xs block : List α} (h : block.length ≤ xs.length) :
    (overwrite xs block : Checked R (List α)) = .ok (block ++ xs.drop block.length) := if_pos h

theorem emit_of_le {capacity : ℕ} {out xs : List α} (h : out.length + xs.length ≤ capacity) :
    (emit capacity out xs : Checked R (List α)) = .ok (out ++ xs) := if_pos h

theorem emit_eq_ok {capacity : ℕ} {out xs r : List α} :
    (emit capacity out xs : Checked R (List α)) = .ok r ↔
      out.length + xs.length ≤ capacity ∧ r = out ++ xs := by
  unfold emit
  split
  · simp [*, eq_comm]
  · simp [*]

/-! ## Walking over an object by offset

What lies at an offset is described by the rest of the object from there on. -/

theorem drop_add_of_drop {xs a b : List α} {i : ℕ} (h : xs.drop i = a ++ b) :
    xs.drop (i + a.length) = b := by
  rw [← List.drop_drop, h, List.drop_left]

theorem drop_succ_of_drop {xs rest : List α} {x : α} {i : ℕ} (h : xs.drop i = x :: rest) :
    xs.drop (i + 1) = rest := drop_add_of_drop (a := [x]) h

theorem add_length_le_of_drop {xs a b : List α} {i : ℕ} (hi : i ≤ xs.length)
    (h : xs.drop i = a ++ b) : i + a.length ≤ xs.length := by
  have hl := congrArg List.length h
  rw [List.length_drop, List.length_append] at hl
  omega

theorem readAt_of_drop {xs rest : List α} {x : α} {i : ℕ} (h : xs.drop i = x :: rest) :
    (readAt xs i : Checked R α) = .ok x := by
  have hx : xs[i]? = some x := by
    rw [← Nat.add_zero i, ← List.getElem?_drop, h, List.getElem?_cons_zero]
  simp [readAt, hx]

theorem readSlice_of_drop {xs mid rest : List α} {i : ℕ} (hi : i ≤ xs.length)
    (h : xs.drop i = mid ++ rest) :
    (readSlice xs i mid.length : Checked R (List α)) = .ok mid := by
  rw [readSlice_of_le (add_length_le_of_drop hi h), h, List.take_left]

/-! ## Counting loops -/

/-- `for(i = start; count iterations; i++) body(i)`. -/
def loop (body : ℕ → α → Checked R α) : ℕ → ℕ → α → Checked R α
  | _, 0, a => .ok a
  | i, count + 1, a => body i a >>= loop body (i + 1) count

/-- A loop whose body keeps an invariant and never stops runs to its end and
leaves the invariant at the final index. -/
theorem loop_total (body : ℕ → α → Checked R α) (start count : ℕ) (a : α) (I : ℕ → α → Prop)
    (h0 : I start a)
    (hstep : ∀ i b, start ≤ i → i < start + count → I i b →
      ∃ b', body i b = .ok b' ∧ I (i + 1) b') :
    ∃ a', loop body start count a = .ok a' ∧ I (start + count) a' := by
  induction count generalizing start a with
  | zero => exact ⟨a, rfl, h0⟩
  | succ count ih =>
    obtain ⟨b, hb, hI⟩ := hstep start a (Nat.le_refl start) (by omega) h0
    obtain ⟨a', ha', hI'⟩ := ih (start + 1) b hI (fun i b' hi hi' => hstep i b' (by omega) (by omega))
    refine ⟨a', ?_, ?_⟩
    · simpa [loop, hb] using ha'
    · simpa [Nat.add_assoc, Nat.add_comm 1] using hI'

end AdaptiveLowpan.CheckedMemory
