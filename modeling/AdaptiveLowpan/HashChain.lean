import Mathlib.Data.List.Basic

/-! # One changed item in a hash chain

A chain folds a step over its items. When the step is injective in the hash and in the
item, a change of exactly one item, at any place, changes the hash at the end. -/

namespace AdaptiveLowpan.HashChain
open Function

variable {σ α : Type} {i : ℕ} {xs ys zs : List α}

/-- The lists differ in the item at place `i`, and there only. -/
def ChangesAt (i : ℕ) (xs ys : List α) : Prop :=
  ∃ before a b after, a ≠ b ∧ before.length = i ∧ xs = before ++ a :: after ∧
    ys = before ++ b :: after

namespace ChangesAt

theorem length_eq (h : ChangesAt i xs ys) : xs.length = ys.length := by
  obtain ⟨before, a, b, after, -, -, rfl, rfl⟩ := h
  simp

theorem lt_length (h : ChangesAt i xs ys) : i < xs.length := by
  obtain ⟨before, a, b, after, -, rfl, rfl, -⟩ := h
  rw [List.length_append, List.length_cons]
  omega

theorem getElem?_ne (h : ChangesAt i xs ys) : xs[i]? ≠ ys[i]? := by
  obtain ⟨before, a, b, after, hab, rfl, rfl, rfl⟩ := h
  simpa using hab

theorem getElem?_eq (h : ChangesAt i xs ys) {j : ℕ} (hj : j ≠ i) : xs[j]? = ys[j]? := by
  obtain ⟨before, a, b, after, -, rfl, rfl, rfl⟩ := h
  rcases Nat.lt_or_gt_of_ne hj with hlt | hgt
  · rw [List.getElem?_append_left hlt, List.getElem?_append_left hlt]
  · obtain ⟨k, hk⟩ : ∃ k, j - before.length = k + 1 := ⟨j - before.length - 1, by omega⟩
    rw [List.getElem?_append_right (by omega), List.getElem?_append_right (by omega), hk,
      List.getElem?_cons_succ, List.getElem?_cons_succ]

theorem place_eq (h : ChangesAt i xs ys) {j : ℕ} (h' : ChangesAt j xs ys) : i = j := by
  by_contra hne
  exact h.getElem?_ne (h'.getElem?_eq hne)

theorem slice_eq (h : ChangesAt i xs ys) {k n : ℕ} (hbeside : i < k ∨ k + n ≤ i) :
    (xs.drop k).take n = (ys.drop k).take n := by
  apply List.ext_getElem?
  intro j
  rw [List.getElem?_take, List.getElem?_take]
  split
  · rw [List.getElem?_drop, List.getElem?_drop, h.getElem?_eq (by omega)]
  · rfl

theorem append_left (h : ChangesAt i xs ys) (zs : List α) :
    ChangesAt (zs.length + i) (zs ++ xs) (zs ++ ys) := by
  obtain ⟨before, a, b, after, hab, rfl, rfl, rfl⟩ := h
  exact ⟨zs ++ before, a, b, after, hab, List.length_append, by simp, by simp⟩

theorem append_right (h : ChangesAt i xs ys) (zs : List α) :
    ChangesAt i (xs ++ zs) (ys ++ zs) := by
  obtain ⟨before, a, b, after, hab, rfl, rfl, rfl⟩ := h
  exact ⟨before, a, b, after ++ zs, hab, rfl, by simp, by simp⟩

/-- A change in two lists one after the other is a change in one of them. -/
theorem of_append (h : ChangesAt i (xs ++ ys) zs) :
    (∃ xs', ChangesAt i xs xs' ∧ zs = xs' ++ ys) ∨
      ∃ j ys', i = xs.length + j ∧ ChangesAt j ys ys' ∧ zs = xs ++ ys' := by
  obtain ⟨before, a, b, after, hab, rfl, hxs, rfl⟩ := h
  rcases List.append_eq_append_iff.mp hxs with ⟨middle, rfl, rfl⟩ | ⟨middle, rfl, hmiddle⟩
  · exact Or.inr ⟨middle.length, middle ++ b :: after, List.length_append,
      ⟨middle, a, b, after, hab, rfl, rfl, rfl⟩, by simp⟩
  · cases middle with
    | nil =>
      obtain rfl : a :: after = ys := hmiddle
      exact Or.inr ⟨0, b :: after, by simp, ⟨[], a, b, after, hab, rfl, rfl, rfl⟩, by simp⟩
    | cons c middle =>
      obtain ⟨rfl, rfl⟩ := List.cons.inj hmiddle
      exact Or.inl ⟨before ++ b :: middle, ⟨before, a, b, middle, hab, rfl, rfl, rfl⟩, by simp⟩

end ChangesAt

/-! ## Chains -/

/-- A step that loses neither the hash nor the item. -/
structure Lossless (step : σ → α → σ) : Prop where
  hash : ∀ a, Injective (step · a)
  item : ∀ h, Injective (step h)

variable {step : σ → α → σ}

theorem foldl_injective (hstep : Lossless step) (xs : List α) :
    Injective fun h => xs.foldl step h := by
  induction xs with
  | nil =>
    intro h h' heq
    exact heq
  | cons a xs ih =>
    intro h h' heq
    exact hstep.hash a (ih heq)

theorem foldl_ne_of_changesAt (hstep : Lossless step) (h : σ) (hchange : ChangesAt i xs ys) :
    xs.foldl step h ≠ ys.foldl step h := by
  obtain ⟨before, a, b, after, hab, -, rfl, rfl⟩ := hchange
  rw [List.foldl_append, List.foldl_append, List.foldl_cons, List.foldl_cons]
  intro heq
  exact hab (hstep.item _ (foldl_injective hstep after heq))

end AdaptiveLowpan.HashChain
