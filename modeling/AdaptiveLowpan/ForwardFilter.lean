import Mathlib.Algebra.BigOperators.Field
import Mathlib.Algebra.BigOperators.Fin
import Mathlib.Algebra.BigOperators.Ring.Finset

/-! # Forward filtering

A filter carries weights over the states of a chain forward and normalises them in every
step. What it holds are the weights of all the paths through the chain, summed by the
state in which they end and normalised once. -/

namespace AdaptiveLowpan.ForwardFilter
open Finset

variable {K ι : Type} [Field K] [Fintype ι]

def pushforward (kernel : ι → ι → K) (w : ι → K) : ι → K := fun j => ∑ i, w i * kernel i j

def normalised (w : ι → K) : ι → K := fun i => w i / ∑ j, w j

def pathWeight (kernel : ℕ → ι → ι → K) (w : ι → K) (n : ℕ) (path : Fin (n + 1) → ι) : K :=
  w (path 0) * ∏ k : Fin n, kernel k (path k.castSucc) (path k.succ)

def endWeight [DecidableEq ι] (kernel : ℕ → ι → ι → K) (w : ι → K) (n : ℕ) (j : ι) : K :=
  ∑ path : Fin (n + 1) → ι with path (Fin.last n) = j, pathWeight kernel w n path

theorem sum_normalised {w : ι → K} (h : ∑ i, w i ≠ 0) : ∑ i, normalised w i = 1 := by
  simp only [normalised]
  rw [← sum_div, div_self h]

theorem normalised_smul {c : K} (hc : c ≠ 0) (w : ι → K) :
    normalised (fun i => c * w i) = normalised w := by
  funext i
  rw [normalised, normalised, ← mul_sum, mul_div_mul_left _ _ hc]

theorem pushforward_smul (kernel : ι → ι → K) (c : K) (w : ι → K) (j : ι) :
    pushforward kernel (fun i => c * w i) j = c * pushforward kernel w j := by
  simp only [pushforward, mul_sum, mul_assoc]

variable {kernel : ℕ → ι → ι → K} {w : ι → K}

omit [Fintype ι] in
theorem pathWeight_snoc (n : ℕ) (path : Fin (n + 1) → ι) (j : ι) :
    pathWeight kernel w (n + 1) (Fin.snoc path j) =
      pathWeight kernel w n path * kernel n (path (Fin.last n)) j := by
  have hzero : (0 : Fin (n + 2)) = Fin.castSucc 0 := rfl
  rw [pathWeight, pathWeight, Fin.prod_univ_castSucc, ← mul_assoc, hzero]
  simp only [← Fin.castSucc_succ, Fin.snoc_castSucc, Fin.val_castSucc, Fin.succ_last,
    Fin.snoc_last, Fin.val_last]

variable [DecidableEq ι]

theorem endWeight_zero : endWeight kernel w 0 = w := by
  funext j
  rw [endWeight, sum_filter, ← (Equiv.funUnique (Fin 1) ι).symm.sum_comp]
  simp [pathWeight]

/-- The paths are made longer by one step at their end. -/
theorem endWeight_succ (n : ℕ) :
    endWeight kernel w (n + 1) = pushforward (kernel n) (endWeight kernel w n) := by
  funext j
  have hlonger : endWeight kernel w (n + 1) j =
      ∑ path, pathWeight kernel w n path * kernel n (path (Fin.last n)) j := by
    rw [endWeight, sum_filter, ← (Fin.snocEquiv fun _ => ι).sum_comp, Fintype.sum_prod_type,
      sum_eq_single j]
    · simp [Fin.snocEquiv, pathWeight_snoc]
    · intro i _ hi
      simp [Fin.snocEquiv, hi]
    · intro hj
      exact absurd (mem_univ j) hj
  rw [hlonger, pushforward, ← sum_fiberwise univ fun path : Fin (n + 1) → ι => path (Fin.last n)]
  refine sum_congr rfl fun i _ => ?_
  rw [endWeight, sum_mul]
  refine sum_congr rfl fun path hpath => ?_
  rw [(mem_filter.mp hpath).2]

/-- A filter that normalises in every step holds the normalised weights of the paths. -/
theorem filtered {p : ℕ → ι → K} {n : ℕ} (hstart : ∑ i, p 0 i = 1)
    (hsum : ∀ k < n, ∑ j, pushforward (kernel k) (p k) j ≠ 0)
    (hstep : ∀ k < n, p (k + 1) = normalised (pushforward (kernel k) (p k))) :
    p n = normalised (endWeight kernel (p 0) n) := by
  -- the filter holds the weights of the paths up to a factor
  obtain ⟨c, hc, hscaled, hone⟩ : ∃ c ≠ 0, endWeight kernel (p 0) n = (fun j => c * p n j) ∧
      ∑ i, p n i = 1 := by
    induction n with
    | zero => exact ⟨1, one_ne_zero, by rw [endWeight_zero]; simp, hstart⟩
    | succ n ih =>
      obtain ⟨c, hc, hscaled, -⟩ := ih (fun k hk => hsum k (Nat.lt_succ_of_lt hk))
        fun k hk => hstep k (Nat.lt_succ_of_lt hk)
      have hn := hsum n (Nat.lt_succ_self n)
      refine ⟨c * ∑ j, pushforward (kernel n) (p n) j, mul_ne_zero hc hn, ?_, ?_⟩
      · funext j
        rw [endWeight_succ, hscaled, pushforward_smul, hstep n (Nat.lt_succ_self n), normalised,
          mul_assoc, mul_div_cancel₀ _ hn]
      · rw [hstep n (Nat.lt_succ_self n)]
        exact sum_normalised hn
  rw [hscaled, normalised_smul hc]
  funext j
  rw [normalised, hone, div_one]

end AdaptiveLowpan.ForwardFilter
