import Mathlib.Data.List.Sort

/-! # Sparse vectors

A vector is stored as the entries `(place, value)` of its places that are not zero.
Entries in ascending order can be read back from the vector, but for those that store a
zero. -/

namespace AdaptiveLowpan.SparseVectors

variable {α : Type} {zero : α} {xs : List α} {entries entries' : List (ℕ × α)}

def store (xs : List α) (entries : List (ℕ × α)) : List α :=
  entries.foldl (fun xs entry => xs.set entry.1 entry.2) xs

/-- The places ascend, and lie in a vector of length `n`. -/
structure Ascending (n : ℕ) (entries : List (ℕ × α)) : Prop where
  ascending : entries.Pairwise (·.1 < ·.1)
  below : ∀ entry ∈ entries, entry.1 < n

@[simp] theorem length_store (xs : List α) (entries : List (ℕ × α)) :
    (store xs entries).length = xs.length := by
  induction entries generalizing xs with
  | nil => rfl
  | cons entry entries ih =>
    change (store (xs.set entry.1 entry.2) entries).length = xs.length
    rw [ih, List.length_set]

/-- Entries of the first part leave the second as it is. -/
theorem store_append {ys : List α} (h : ∀ entry ∈ entries, entry.1 < xs.length) :
    store (xs ++ ys) entries = store xs entries ++ ys := by
  induction entries generalizing xs with
  | nil => rfl
  | cons entry entries ih =>
    change store ((xs ++ ys).set entry.1 entry.2) entries = store (xs.set entry.1 entry.2) entries ++ ys
    rw [List.set_append_left _ _ (h entry List.mem_cons_self)]
    apply ih
    intro e he
    rw [List.length_set]
    exact h e (List.mem_cons_of_mem entry he)

theorem store_of_notMem {j : ℕ} (h : ∀ entry ∈ entries, entry.1 ≠ j) :
    (store xs entries)[j]? = xs[j]? := by
  induction entries generalizing xs with
  | nil => rfl
  | cons entry entries ih =>
    change (store (xs.set entry.1 entry.2) entries)[j]? = xs[j]?
    rw [ih fun e he => h e (List.mem_cons_of_mem entry he),
      List.getElem?_set_ne (h entry List.mem_cons_self)]

theorem store_of_mem {n : ℕ} (h : Ascending n entries) (hn : n ≤ xs.length) {entry : ℕ × α}
    (hmem : entry ∈ entries) : (store xs entries)[entry.1]? = some entry.2 := by
  induction entries generalizing xs with
  | nil => cases hmem
  | cons first entries ih =>
    obtain ⟨hfirst, hrest⟩ := List.pairwise_cons.mp h.ascending
    change (store (xs.set first.1 first.2) entries)[entry.1]? = some entry.2
    rcases List.mem_cons.mp hmem with rfl | hmem
    · have hbelow := h.below entry List.mem_cons_self
      rw [store_of_notMem fun e he => (hfirst e he).ne', List.getElem?_set_self (by omega)]
    · exact ih ⟨hrest, fun e he => h.below e (List.mem_cons_of_mem first he)⟩
        (by rwa [List.length_set]) hmem

/-- A vector holds the entries that do not store a zero. -/
theorem mem_of_store_eq {n : ℕ} (h : Ascending n entries) (h' : Ascending n entries')
    (hsame : store (List.replicate n zero) entries = store (List.replicate n zero) entries')
    {entry : ℕ × α} (hmem : entry ∈ entries) (hvalue : entry.2 ≠ zero) : entry ∈ entries' := by
  have hlength : n ≤ (List.replicate n zero).length := (List.length_replicate).ge
  have hentry := store_of_mem h hlength hmem
  rw [hsame] at hentry
  by_cases hplace : ∃ e ∈ entries', e.1 = entry.1
  · obtain ⟨e, he, hplace⟩ := hplace
    have hvalue' := store_of_mem h' hlength he
    rw [hplace, hentry] at hvalue'
    have heq : entry = e := Prod.ext hplace.symm (Option.some.inj hvalue')
    rwa [heq]
  · rw [store_of_notMem fun e he heq => hplace ⟨e, he, heq⟩,
      List.getElem?_replicate_of_lt (h.below entry hmem)] at hentry
    exact absurd (Option.some.inj hentry).symm hvalue

end AdaptiveLowpan.SparseVectors
