import Mathlib.Algebra.BigOperators.Ring.Finset
import Mathlib.Algebra.BigOperators.Group.Finset.Powerset
import Mathlib.Tactic.Ring

/-! # Independent trials

Each of finitely many trials succeeds with its own probability, whatever the others do. The
chance of an outcome is a product over the trials, and a cost that is added up over the trials
is on average the sum of the average costs. -/

namespace AdaptiveLowpan.IndependentTrials
open Finset

variable {ι R : Type} [DecidableEq ι] [CommRing R]

/-- The chance that exactly the trials of `successes` succeed among `trials`. -/
def chance (p : ι → R) (trials successes : Finset ι) : R :=
  (∏ i ∈ successes, p i) * ∏ i ∈ trials \ successes, (1 - p i)

def mean (p : ι → R) (trials : Finset ι) (quantity : Finset ι → R) : R :=
  ∑ successes ∈ trials.powerset, chance p trials successes * quantity successes

variable {p : ι → R} {trials : Finset ι}

theorem mean_insert {i : ι} (hi : i ∉ trials) (quantity : Finset ι → R) :
    mean p (insert i trials) quantity =
      (1 - p i) * mean p trials quantity + p i * mean p trials fun s => quantity (insert i s) := by
  have hfails : ∀ s ∈ trials.powerset,
      chance p (insert i trials) s = (1 - p i) * chance p trials s := by
    intro s hs
    have hout : i ∉ s := fun hmem => hi (mem_powerset.mp hs hmem)
    rw [chance, chance, insert_sdiff_of_notMem _ hout,
      prod_insert (fun hmem => hi (mem_sdiff.mp hmem).1)]
    ring
  have hsucceeds : ∀ s ∈ trials.powerset,
      chance p (insert i trials) (insert i s) = p i * chance p trials s := by
    intro s hs
    have hout : i ∉ s := fun hmem => hi (mem_powerset.mp hs hmem)
    rw [chance, chance, prod_insert hout, insert_sdiff_insert, sdiff_insert,
      erase_eq_of_notMem (fun hmem => hi (mem_sdiff.mp hmem).1)]
    ring
  rw [mean, sum_powerset_insert hi, mean, mean, mul_sum, mul_sum]
  congr 1
  · refine sum_congr rfl fun s hs => ?_
    rw [hfails s hs, mul_assoc]
  · refine sum_congr rfl fun s hs => ?_
    rw [hsucceeds s hs, mul_assoc]

theorem mean_congr {f g : Finset ι → R} (h : ∀ s ⊆ trials, f s = g s) :
    mean p trials f = mean p trials g :=
  sum_congr rfl fun s hs => by rw [h s (mem_powerset.mp hs)]

theorem mean_add (f g : Finset ι → R) :
    mean p trials (fun s => f s + g s) = mean p trials f + mean p trials g := by
  rw [mean, mean, mean, ← sum_add_distrib]
  exact sum_congr rfl fun s _ => mul_add _ _ _

/-- Some outcome happens. -/
theorem mean_const (a : R) : mean p trials (fun _ => a) = a := by
  induction trials using Finset.induction_on with
  | empty => simp [mean, chance]
  | insert i trials hi ih =>
    rw [mean_insert hi, ih]
    ring

/-- The cost of an outcome, when a trial costs `a` where it succeeds and `b` where it does not. -/
def cost (a b : ι → R) (trials successes : Finset ι) : R :=
  ∑ i ∈ successes, a i + ∑ i ∈ trials \ successes, b i

theorem cost_insert_of_notMem (a b : ι → R) {i : ι} (hi : i ∉ trials) {s : Finset ι}
    (hs : s ⊆ trials) : cost a b (insert i trials) s = cost a b trials s + b i := by
  have hout : i ∉ s := fun hmem => hi (hs hmem)
  rw [cost, cost, insert_sdiff_of_notMem _ hout, sum_insert (fun hmem => hi (mem_sdiff.mp hmem).1)]
  ring

theorem cost_insert_insert (a b : ι → R) {i : ι} (hi : i ∉ trials) {s : Finset ι}
    (hs : s ⊆ trials) : cost a b (insert i trials) (insert i s) = cost a b trials s + a i := by
  have hout : i ∉ s := fun hmem => hi (hs hmem)
  rw [cost, cost, sum_insert hout, insert_sdiff_insert, sdiff_insert,
    erase_eq_of_notMem (fun hmem => hi (mem_sdiff.mp hmem).1)]
  ring

theorem mean_cost (a b : ι → R) :
    mean p trials (cost a b trials) = ∑ i ∈ trials, (p i * a i + (1 - p i) * b i) := by
  induction trials using Finset.induction_on with
  | empty => simp [mean, chance, cost]
  | insert i trials hi ih =>
    have hfails := mean_congr (p := p) fun s => cost_insert_of_notMem a b hi
    have hsucceeds := mean_congr (p := p) fun s => cost_insert_insert a b hi
    rw [mean_insert hi, hfails, hsucceeds, mean_add, mean_add, mean_const, mean_const, ih,
      sum_insert hi]
    ring

theorem mean_nonempty :
    mean p trials (fun s => if s = ∅ then 0 else 1) = 1 - ∏ i ∈ trials, (1 - p i) := by
  induction trials using Finset.induction_on with
  | empty => simp [mean, chance]
  | insert i trials hi ih =>
    simp only [mean_insert hi, insert_ne_empty, if_false, mean_const, ih, prod_insert hi]
    ring

end AdaptiveLowpan.IndependentTrials
