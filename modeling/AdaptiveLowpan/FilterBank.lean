import Mathlib.Algebra.BigOperators.Intervals
import Mathlib.Algebra.Order.BigOperators.Group.Finset
import Mathlib.Algebra.Order.Field.Basic
import Mathlib.Algebra.Order.BigOperators.Ring.Finset
import Mathlib.Algebra.Order.Chebyshev
import Mathlib.Data.Int.ModEq
import Mathlib.Data.Rat.BigOperators
import Mathlib.Data.Rat.Cast.Order
import Mathlib.Tactic.Linarith
import Mathlib.Tactic.Ring

/-! # Two-channel filter banks with periodic extension

One level of analysis replaces the first `2 * half` entries of a signal by the responses of
a low-pass and a high-pass filter at every other place, and synthesis is its transpose.
When the taps reconstruct a signal up to a small error, several levels on ever shorter
prefixes do so too, and synthesis hardly adds to the sum of squares. -/

namespace AdaptiveLowpan.FilterBank
open Finset

structure Bank (K : Type*) where
  taps : ℕ
  low : ℕ → K
  high : ℕ → K

variable {K : Type*} [Field K]

namespace Bank

variable (b : Bank K) (half : ℕ)

/-- The response of a filter at place `i`, over the first `2 * half` entries. -/
def response (h x : ℕ → K) (i : ℕ) : K := ∑ k ∈ range b.taps, h k * x ((2 * i + k) % (2 * half))

def analysis (x : ℕ → K) (j : ℕ) : K :=
  if j < half then b.response half b.low x j
  else if j < 2 * half then b.response half b.high x (j - half)
  else x j

/-- What the taps collect at place `m` from the coefficients. -/
def gather (c : ℕ → K) (m : ℕ) : K :=
  ∑ i ∈ range half, ∑ k ∈ range b.taps,
    if (2 * i + k) % (2 * half) = m then b.low k * c i + b.high k * c (half + i) else 0

def synthesis (c : ℕ → K) (m : ℕ) : K := if m < 2 * half then b.gather half c m else c m

/-- Analysis of the first `n` entries, then of the low half of the result, and so on. -/
def analyze : ℕ → ℕ → (ℕ → K) → ℕ → K
  | 0, _, x => x
  | levels + 1, n, x => analyze levels (n / 2) (b.analysis (n / 2) x)

/-- Synthesis of `n` and `n` entries, then of twice as many, and so on. -/
def synthesize : ℕ → ℕ → (ℕ → K) → ℕ → K
  | 0, _, c => c
  | levels + 1, n, c => synthesize levels (n * 2) (b.synthesis n c)

end Bank

variable {b : Bank K} {half : ℕ}

/-! ## The places that a tap reaches -/

theorem exists_place {k m : ℕ} (hm : m < 2 * half) (hparity : k % 2 = m % 2) :
    ∃ i < half, (2 * i + k) % (2 * half) = m := by
  have hhalf : 0 < half := by omega
  have heven : (m + (2 * half - 1) * k) % 2 = 0 := by
    obtain ⟨t, ht⟩ : ∃ t, 2 * half - 1 = 2 * t + 1 := ⟨half - 1, by omega⟩
    have hexpand : m + (2 * t + 1) * k = 2 * (t * k) + (m + k) := by ring
    rw [ht, hexpand]
    omega
  refine ⟨(m + (2 * half - 1) * k) / 2 % half, Nat.mod_lt _ hhalf, ?_⟩
  have htwice : 2 * ((m + (2 * half - 1) * k) / 2 % half) =
      (m + (2 * half - 1) * k) % (2 * half) := by
    rw [← Nat.mul_mod_mul_left, Nat.mul_div_cancel' (Nat.dvd_of_mod_eq_zero heven)]
  have hround : m + (2 * half - 1) * k + k = m + 2 * half * k := by
    have hk : (2 * half - 1) * k + k = 2 * half * k := by
      rw [Nat.sub_mul, Nat.one_mul]
      exact Nat.sub_add_cancel (Nat.le_mul_of_pos_left k (by omega))
    omega
  rw [htwice, Nat.mod_add_mod, hround, Nat.add_mul_mod_self_left, Nat.mod_eq_of_lt hm]

theorem place_unique {i i' k : ℕ} (hi : i < half) (hi' : i' < half)
    (h : (2 * i + k) % (2 * half) = (2 * i' + k) % (2 * half)) : i = i' := by
  have hmod : Nat.ModEq (2 * half) (2 * i) (2 * i') := Nat.ModEq.add_right_cancel' k h
  have htwice := Nat.ModEq.eq_of_lt_of_lt hmod (by omega) (by omega)
  omega

/-- A tap reaches a place of its parity from exactly one index, and no other place. -/
theorem sum_place (k : ℕ) {m : ℕ} (hm : m < 2 * half) (a : K) :
    (∑ i ∈ range half, if (2 * i + k) % (2 * half) = m then a else 0) =
      if k % 2 = m % 2 then a else 0 := by
  by_cases hparity : k % 2 = m % 2
  · obtain ⟨i, hi, hplace⟩ := exists_place hm hparity
    rw [if_pos hparity, sum_eq_single_of_mem i (mem_range.mpr hi), if_pos hplace]
    intro i' hi' hne
    refine if_neg fun hplace' => hne ?_
    exact place_unique (mem_range.mp hi') hi (hplace'.trans hplace.symm)
  · rw [if_neg hparity]
    apply sum_eq_zero
    intro i _
    refine if_neg fun hplace => hparity ?_
    rw [← hplace, Nat.mod_mul_right_mod]
    omega

/-- A signal around place `m`, in periods of `2 * half`. -/
def around {α : Type*} (half : ℕ) (x : ℕ → α) (m : ℕ) (j : ℤ) : α :=
  x (((m : ℤ) + j) % (2 * half : ℕ)).toNat

theorem around_zero {α : Type*} (x : ℕ → α) {m : ℕ} (hm : m < 2 * half) :
    around half x m 0 = x m := by
  rw [around, add_zero, Int.emod_eq_of_lt (Int.natCast_nonneg m) (by omega), Int.toNat_natCast]

theorem around_place {α : Type*} (x : ℕ → α) {i k l m : ℕ} (h : (2 * i + k) % (2 * half) = m) :
    around half x m (l - k) = x ((2 * i + l) % (2 * half)) := by
  have hshift : ((m : ℤ) + (l - k)) % (2 * half : ℕ) = ((2 * i + l : ℕ) : ℤ) % (2 * half : ℕ) := by
    rw [← h, Int.natCast_mod, Int.emod_add_emod]
    congr 1
    push_cast
    ring
  rw [around, hshift, ← Int.natCast_mod, Int.toNat_natCast]

/-! ## Synthesis is linear, and the transpose of analysis -/

theorem gather_add (c d : ℕ → K) (m : ℕ) :
    b.gather half (fun j => c j + d j) m = b.gather half c m + b.gather half d m := by
  simp only [Bank.gather, ← sum_add_distrib]
  refine sum_congr rfl fun i _ => sum_congr rfl fun k _ => ?_
  split
  · ring
  · ring

theorem synthesis_add (c d : ℕ → K) :
    b.synthesis half (fun j => c j + d j) =
      fun j => b.synthesis half c j + b.synthesis half d j := by
  funext m
  simp only [Bank.synthesis]
  split
  · exact gather_add c d m
  · rfl

theorem synthesize_add (levels n : ℕ) (c d : ℕ → K) :
    b.synthesize levels n (fun j => c j + d j) =
      fun j => b.synthesize levels n c j + b.synthesize levels n d j := by
  induction levels generalizing n c d with
  | zero => rfl
  | succ levels ih => rw [Bank.synthesize, synthesis_add, ih, Bank.synthesize, Bank.synthesize]

theorem analysis_smul (a : K) (x : ℕ → K) :
    b.analysis half (fun j => a * x j) = fun j => a * b.analysis half x j := by
  have hresponse (h : ℕ → K) (i : ℕ) :
      b.response half h (fun j => a * x j) i = a * b.response half h x i := by
    simp only [Bank.response, mul_sum, mul_left_comm]
  funext j
  simp only [Bank.analysis, hresponse]
  split
  · rfl
  split
  · rfl
  · rfl

theorem analyze_smul (levels n : ℕ) (a : K) (x : ℕ → K) :
    b.analyze levels n (fun j => a * x j) = fun j => a * b.analyze levels n x j := by
  induction levels generalizing n x with
  | zero => rfl
  | succ levels ih => rw [Bank.analyze, analysis_smul, ih, Bank.analyze]

theorem synthesize_succ (levels n : ℕ) (c : ℕ → K) :
    b.synthesize (levels + 1) n c = b.synthesis (n * 2 ^ levels) (b.synthesize levels n c) := by
  induction levels generalizing n c with
  | zero => simp [Bank.synthesize]
  | succ levels ih =>
    rw [Bank.synthesize, ih, Bank.synthesize, Nat.pow_succ', Nat.mul_assoc]

/-- Against a signal, the gathered coefficients weigh as they do against its analysis. -/
theorem sum_gather_mul (c x : ℕ → K) :
    ∑ m ∈ range (2 * half), b.gather half c m * x m =
      ∑ j ∈ range (2 * half), c j * b.analysis half x j := by
  -- each index and tap contribute at the one place that they reach
  have hplace (i k : ℕ) (a : K) (hi : i ∈ range half) :
      (∑ m ∈ range (2 * half), (if (2 * i + k) % (2 * half) = m then a else 0) * x m) =
        a * x ((2 * i + k) % (2 * half)) := by
    have hlt : (2 * i + k) % (2 * half) ∈ range (2 * half) := by
      have := mem_range.mp hi
      exact mem_range.mpr (Nat.mod_lt _ (by omega))
    rw [sum_eq_single_of_mem _ hlt, if_pos rfl]
    intro m _ hne
    rw [if_neg (Ne.symm hne), zero_mul]
  have hgather : ∑ m ∈ range (2 * half), b.gather half c m * x m =
      ∑ i ∈ range half, (c i * b.response half b.low x i +
        c (half + i) * b.response half b.high x i) := by
    simp only [Bank.gather, sum_mul]
    rw [sum_comm]
    refine sum_congr rfl fun i hi => ?_
    rw [sum_comm, Bank.response, Bank.response, mul_sum, mul_sum, ← sum_add_distrib]
    refine sum_congr rfl fun k _ => ?_
    rw [hplace i k _ hi]
    ring
  rw [hgather, two_mul, sum_range_add, ← sum_add_distrib]
  refine sum_congr rfl fun i hi => ?_
  have hi := mem_range.mp hi
  simp only [Bank.analysis]
  rw [if_pos hi, if_neg (by omega), if_pos (by omega), Nat.add_sub_cancel_left]

theorem gather_analysis (x : ℕ → K) {m : ℕ} (hm : m < 2 * half) :
    b.gather half (b.analysis half x) m = ∑ k ∈ range b.taps, if k % 2 = m % 2 then
      ∑ l ∈ range b.taps, (b.low k * b.low l + b.high k * b.high l) * around half x m (l - k)
        else 0 := by
  rw [Bank.gather, sum_comm]
  refine sum_congr rfl fun k _ => ?_
  rw [← sum_place k hm]
  refine sum_congr rfl fun i hi => ?_
  have hi := mem_range.mp hi
  split
  · rename_i hplace
    simp only [Bank.analysis]
    rw [if_pos hi, if_neg (by omega), if_pos (by omega), Nat.add_sub_cancel_left, Bank.response,
      Bank.response, mul_sum, mul_sum, ← sum_add_distrib]
    refine sum_congr rfl fun l _ => ?_
    rw [around_place x hplace]
    ring
  · rfl

theorem response_const (h : ℕ → K) {x : ℕ → K} {a : K} (hhalf : 0 < half)
    (hx : ∀ j < 2 * half, x j = a) (i : ℕ) :
    b.response half h x i = (∑ k ∈ range b.taps, h k) * a := by
  rw [Bank.response, sum_mul]
  refine sum_congr rfl fun k _ => ?_
  rw [hx _ (Nat.mod_lt _ (by omega))]

/-! ## Reconstruction -/

/-- The weight of the entry `δ` places away in what the filters collect at places of parity
`p`, less what it is in the signal itself. -/
def Bank.defect (b : Bank K) (p : ℕ) (δ : ℤ) : K :=
  (∑ k ∈ range b.taps, ∑ l ∈ range b.taps,
    if k % 2 = p ∧ (l : ℤ) - k = δ then b.low k * b.low l + b.high k * b.high l else 0) -
      if δ = 0 then 1 else 0

def Bank.spread (b : Bank K) : Finset ℤ :=
  (range (2 * b.taps + 1)).image fun n : ℕ => (n : ℤ) - b.taps

theorem mem_spread {K : Type*} {b : Bank K} {δ : ℤ} (h : |δ| ≤ b.taps) : δ ∈ b.spread := by
  have hbounds := abs_le.mp h
  exact mem_image.mpr ⟨(δ + b.taps).toNat, mem_range.mpr (by omega), by omega⟩

theorem sum_defect_mul (p : ℕ) (y : ℤ → K) :
    ∑ δ ∈ b.spread, b.defect p δ * y δ = (∑ k ∈ range b.taps, if k % 2 = p then
      ∑ l ∈ range b.taps, (b.low k * b.low l + b.high k * b.high l) * y (l - k) else 0) - y 0 := by
  have hzero : ∑ δ ∈ b.spread, (if δ = 0 then (1 : K) else 0) * y δ = y 0 := by
    have hmem : (0 : ℤ) ∈ b.spread := mem_spread (by simp)
    rw [sum_eq_single_of_mem 0 hmem fun δ _ hδ => by rw [if_neg hδ, zero_mul], if_pos rfl, one_mul]
  -- each pair of taps weighs at the one distance between them
  have hpair (k l : ℕ) (hk : k ∈ range b.taps) (hl : l ∈ range b.taps) (a : K) :
      ∑ δ ∈ b.spread, (if k % 2 = p ∧ (l : ℤ) - k = δ then a else 0) * y δ =
        if k % 2 = p then a * y (l - k) else 0 := by
    have hk := mem_range.mp hk
    have hl := mem_range.mp hl
    have hmem : (l : ℤ) - k ∈ b.spread := mem_spread (abs_le.mpr ⟨by omega, by omega⟩)
    rw [sum_eq_single_of_mem _ hmem]
    · simp
    · intro δ _ hδ
      rw [if_neg fun h => hδ h.2.symm, zero_mul]
  simp only [Bank.defect, sub_mul, sum_sub_distrib, hzero, sum_mul]
  rw [sum_comm]
  congr 1
  refine sum_congr rfl fun k hk => ?_
  rw [sum_comm, sum_congr rfl fun l hl => hpair k l hk hl _]
  split
  · rfl
  · exact sum_const_zero

variable [LinearOrder K]

/-- Up to `ε` of its bound, a signal is what the two filters collect from `l - k` places
away, at even and at odd places. -/
def Bank.Reconstructs (b : Bank K) (ε : K) : Prop :=
  ∀ p < 2, ∀ (y : ℤ → K) (B : K), (∀ j, |y j| ≤ B) →
    |(∑ k ∈ range b.taps, if k % 2 = p then
      ∑ l ∈ range b.taps, (b.low k * b.low l + b.high k * b.high l) * y (l - k) else 0) - y 0| ≤
        ε * B

structure Bank.Bounded (b : Bank K) (S : K) : Prop where
  low : ∑ k ∈ range b.taps, |b.low k| ≤ S
  high : ∑ k ∈ range b.taps, |b.high k| ≤ S

variable {ε S B : K} {x c : ℕ → K}

theorem abs_around_le (hhalf : 0 < half) (hx : ∀ j < 2 * half, |x j| ≤ B) (m : ℕ) (j : ℤ) :
    |around half x m j| ≤ B := by
  have hlt := Int.emod_lt_of_pos ((m : ℤ) + j) (show (0 : ℤ) < (2 * half : ℕ) by omega)
  have hnonneg := Int.emod_nonneg ((m : ℤ) + j) (show ((2 * half : ℕ) : ℤ) ≠ 0 by omega)
  exact hx _ (by omega)

theorem gather_analysis_near (hb : b.Reconstructs ε) (hx : ∀ j < 2 * half, |x j| ≤ B) {m : ℕ}
    (hm : m < 2 * half) : |b.gather half (b.analysis half x) m - x m| ≤ ε * B := by
  have hnear := hb (m % 2) (Nat.mod_lt m (by decide)) (around half x m) B
    (abs_around_le (by omega) hx m)
  rwa [around_zero x hm, ← gather_analysis x hm] at hnear

variable [IsStrictOrderedRing K]

theorem response_le {h : ℕ → K} (hS : ∑ k ∈ range b.taps, |h k| ≤ S) (hhalf : 0 < half)
    (hB : 0 ≤ B) (hx : ∀ j < 2 * half, |x j| ≤ B) (i : ℕ) : |b.response half h x i| ≤ S * B := by
  calc |b.response half h x i| ≤ ∑ k ∈ range b.taps, |h k * x ((2 * i + k) % (2 * half))| :=
        abs_sum_le_sum_abs _ _
    _ ≤ ∑ k ∈ range b.taps, |h k| * B := by
        refine sum_le_sum fun k _ => ?_
        rw [abs_mul]
        exact mul_le_mul_of_nonneg_left (hx _ (Nat.mod_lt _ (by omega))) (abs_nonneg _)
    _ ≤ S * B := by
        rw [← sum_mul]
        exact mul_le_mul_of_nonneg_right hS hB

theorem analysis_le (hb : b.Bounded S) (hB : 0 ≤ B) (hx : ∀ j < 2 * half, |x j| ≤ B) {j : ℕ}
    (hj : j < 2 * half) : |b.analysis half x j| ≤ S * B := by
  rw [Bank.analysis]
  split
  · exact response_le hb.low (by omega) hB hx j
  · exact response_le hb.high (by omega) hB hx _

theorem Bank.reconstructs_of_defect (h : ∀ p < 2, ∑ δ ∈ b.spread, |b.defect p δ| ≤ ε) :
    b.Reconstructs ε := by
  intro p hp y B hy
  rw [← sum_defect_mul p y]
  calc |∑ δ ∈ b.spread, b.defect p δ * y δ| ≤ ∑ δ ∈ b.spread, |b.defect p δ * y δ| :=
        abs_sum_le_sum_abs _ _
    _ ≤ ∑ δ ∈ b.spread, |b.defect p δ| * B := by
        refine sum_le_sum fun δ _ => ?_
        rw [abs_mul]
        exact mul_le_mul_of_nonneg_left (hy δ) (abs_nonneg _)
    _ ≤ ε * B := by
        rw [← sum_mul]
        exact mul_le_mul_of_nonneg_right (h p hp) ((abs_nonneg (y 0)).trans (hy 0))

def Bank.cast (b : Bank ℚ) : Bank K := ⟨b.taps, fun k => b.low k, fun k => b.high k⟩

theorem defect_cast (b : Bank ℚ) (p : ℕ) (δ : ℤ) :
    (b.cast : Bank K).defect p δ = (b.defect p δ : K) := by
  simp only [Bank.defect, Bank.cast, Rat.cast_sub, Rat.cast_sum, apply_ite (Rat.cast : ℚ → K)]
  push_cast
  rfl

theorem Bank.reconstructs_cast {b : Bank ℚ} {q : ℚ}
    (h : ∀ p < 2, ∑ δ ∈ b.spread, |b.defect p δ| ≤ q) : (b.cast : Bank K).Reconstructs q := by
  apply Bank.reconstructs_of_defect
  intro p hp
  have hcast := Rat.cast_le (K := K).mpr (h p hp)
  rw [Rat.cast_sum] at hcast
  refine le_of_eq_of_le (sum_congr rfl fun δ _ => ?_) hcast
  rw [defect_cast, Rat.cast_abs]

theorem Bank.bounded_cast {b : Bank ℚ} {q : ℚ} (h : b.Bounded q) : (b.cast : Bank K).Bounded q := by
  constructor
  · have hcast := Rat.cast_le (K := K).mpr h.low
    rw [Rat.cast_sum] at hcast
    refine le_of_eq_of_le (sum_congr rfl fun k _ => ?_) hcast
    rw [Rat.cast_abs, Bank.cast]
  · have hcast := Rat.cast_le (K := K).mpr h.high
    rw [Rat.cast_sum] at hcast
    refine le_of_eq_of_le (sum_congr rfl fun k _ => ?_) hcast
    rw [Rat.cast_abs, Bank.cast]

theorem gather_low_le (hb : b.Bounded S) (hB : 0 ≤ B) (hlow : ∀ j < half, |c j| ≤ B)
    (hhigh : ∀ j, half ≤ j → c j = 0) {m : ℕ} (hm : m < 2 * half) :
    |b.gather half c m| ≤ S * B := by
  have hterm (i k : ℕ) (hi : i ∈ range half) :
      |if (2 * i + k) % (2 * half) = m then b.low k * c i + b.high k * c (half + i) else 0| ≤
        if (2 * i + k) % (2 * half) = m then |b.low k| * B else 0 := by
    split
    · rw [hhigh _ (Nat.le_add_right half i), mul_zero, add_zero, abs_mul]
      exact mul_le_mul_of_nonneg_left (hlow i (mem_range.mp hi)) (abs_nonneg _)
    · rw [abs_zero]
  calc |b.gather half c m| ≤ ∑ i ∈ range half, ∑ k ∈ range b.taps,
        if (2 * i + k) % (2 * half) = m then |b.low k| * B else 0 := by
        refine (abs_sum_le_sum_abs _ _).trans (sum_le_sum fun i hi => ?_)
        exact (abs_sum_le_sum_abs _ _).trans (sum_le_sum fun k _ => hterm i k hi)
    _ = ∑ k ∈ range b.taps, if k % 2 = m % 2 then |b.low k| * B else 0 := by
        rw [sum_comm]
        exact sum_congr rfl fun k _ => sum_place k hm _
    _ ≤ ∑ k ∈ range b.taps, |b.low k| * B := by
        refine sum_le_sum fun k _ => ?_
        split
        · exact le_rfl
        · exact mul_nonneg (abs_nonneg _) hB
    _ ≤ S * B := by
        rw [← sum_mul]
        exact mul_le_mul_of_nonneg_right hb.low hB

def levelError (ε S : K) : ℕ → K
  | 0 => 0
  | levels + 1 => ε + S * S * levelError ε S levels

theorem levelError_nonneg (hε : 0 ≤ ε) (hS : 0 ≤ S) (levels : ℕ) : 0 ≤ levelError ε S levels := by
  induction levels with
  | zero => exact le_rfl
  | succ levels ih => exact add_nonneg hε (mul_nonneg (mul_nonneg hS hS) ih)

/-- Analysis and synthesis over several levels: what lies behind the signal stays as it is,
and the signal comes back up to the error of the levels. -/
theorem synthesize_analyze (hε : 0 ≤ ε) (hS : 0 ≤ S) (hb : b.Reconstructs ε) (hb' : b.Bounded S)
    (levels coarse : ℕ) (x : ℕ → K) (hB : 0 ≤ B) (hx : ∀ j < coarse * 2 ^ levels, |x j| ≤ B) :
    (∀ j < coarse * 2 ^ levels,
      |b.synthesize levels coarse (b.analyze levels (coarse * 2 ^ levels) x) j - x j| ≤
        levelError ε S levels * B) ∧
    ∀ j, coarse * 2 ^ levels ≤ j →
      b.synthesize levels coarse (b.analyze levels (coarse * 2 ^ levels) x) j = x j := by
  induction levels generalizing x B with
  | zero =>
    refine ⟨fun j _ => ?_, fun j _ => rfl⟩
    simp [Bank.synthesize, Bank.analyze, levelError]
  | succ levels ih =>
    set half := coarse * 2 ^ levels with hhalf
    have hlength : coarse * 2 ^ (levels + 1) = 2 * half := by
      rw [hhalf, Nat.pow_succ']
      ring
    rw [hlength] at hx ⊢
    rw [synthesize_succ, Bank.analyze, Nat.mul_div_cancel_left half (by decide), ← hhalf]
    -- the levels below work on the low half of the analysis
    set y := b.analysis half x with hy
    have hy_le : ∀ j < 2 * half, |y j| ≤ S * B := fun j hj => analysis_le hb' hB hx hj
    obtain ⟨hnear, hkeep⟩ := ih y (mul_nonneg hS hB) fun j hj => hy_le j (by omega)
    set z := b.synthesize levels coarse (b.analyze levels half y) with hz
    have hsplit : z = fun j => y j + (z j - y j) := by
      funext j
      ring
    have hbeyond (j : ℕ) (hj : half ≤ j) : z j - y j = 0 := by rw [hkeep j hj, sub_self]
    constructor
    · intro m hm
      have hdefect := gather_low_le hb' (mul_nonneg (levelError_nonneg hε hS levels)
        (mul_nonneg hS hB)) hnear hbeyond hm
      have hlevel := gather_analysis_near hb hx hm
      rw [Bank.synthesis, if_pos hm, hsplit, gather_add]
      calc |b.gather half y m + b.gather half (fun j => z j - y j) m - x m|
          = |(b.gather half y m - x m) + b.gather half (fun j => z j - y j) m| := by ring_nf
        _ ≤ |b.gather half y m - x m| + |b.gather half (fun j => z j - y j) m| := abs_add_le _ _
        _ ≤ ε * B + S * (levelError ε S levels * (S * B)) := add_le_add hlevel hdefect
        _ = levelError ε S (levels + 1) * B := by
            rw [levelError]
            ring
    · intro m hm
      rw [Bank.synthesis, if_neg (by omega), hkeep m (by omega), hy, Bank.analysis,
        if_neg (by omega), if_neg (by omega)]

/-! ## Sums of squares -/

theorem sum_sq_analysis_le (hε : 0 ≤ ε) (hb : b.Reconstructs ε) (half : ℕ) (w : ℕ → K) :
    ∑ j ∈ range (2 * half), b.analysis half w j ^ 2 ≤
      (1 + (2 * half : ℕ) * ε) * ∑ m ∈ range (2 * half), w m ^ 2 := by
  rcases Nat.eq_zero_or_pos half with rfl | hhalf
  · simp
  -- a place where the signal is largest
  obtain ⟨top, htop, hmax⟩ := exists_max_image (range (2 * half)) (fun m => |w m|)
    ⟨0, mem_range.mpr (by omega)⟩
  have hw : ∀ m < 2 * half, |w m| ≤ |w top| := fun m hm => hmax m (mem_range.mpr hm)
  have htop_sq : |w top| ^ 2 ≤ ∑ m ∈ range (2 * half), w m ^ 2 := by
    rw [sq_abs]
    exact single_le_sum (f := fun m => w m ^ 2) (fun m _ => sq_nonneg (w m)) htop
  have hdefect : ∑ m ∈ range (2 * half), (b.gather half (b.analysis half w) m - w m) * w m ≤
      (2 * half : ℕ) * (ε * |w top| ^ 2) := by
    have hterm : ∀ m ∈ range (2 * half),
        (b.gather half (b.analysis half w) m - w m) * w m ≤ ε * |w top| ^ 2 := by
      intro m hm
      have hm := mem_range.mp hm
      calc (b.gather half (b.analysis half w) m - w m) * w m
          ≤ |b.gather half (b.analysis half w) m - w m| * |w m| := by
            rw [← abs_mul]
            exact le_abs_self _
        _ ≤ ε * |w top| * |w top| := mul_le_mul (gather_analysis_near hb hw hm) (hw m hm)
            (abs_nonneg _) (mul_nonneg hε (abs_nonneg _))
        _ = ε * |w top| ^ 2 := by ring
    calc _ ≤ ∑ _m ∈ range (2 * half), ε * |w top| ^ 2 := sum_le_sum hterm
      _ = (2 * half : ℕ) * (ε * |w top| ^ 2) := by rw [sum_const, card_range, nsmul_eq_mul]
  calc ∑ j ∈ range (2 * half), b.analysis half w j ^ 2
      = ∑ m ∈ range (2 * half), b.gather half (b.analysis half w) m * w m := by
        rw [sum_gather_mul]
        exact sum_congr rfl fun j _ => pow_two _
    _ = ∑ m ∈ range (2 * half), w m ^ 2 +
          ∑ m ∈ range (2 * half), (b.gather half (b.analysis half w) m - w m) * w m := by
        rw [← sum_add_distrib]
        exact sum_congr rfl fun m _ => by ring
    _ ≤ ∑ m ∈ range (2 * half), w m ^ 2 + (2 * half : ℕ) * (ε * ∑ m ∈ range (2 * half), w m ^ 2) := by
        refine add_le_add le_rfl (hdefect.trans ?_)
        exact mul_le_mul_of_nonneg_left (mul_le_mul_of_nonneg_left htop_sq hε) (Nat.cast_nonneg _)
    _ = (1 + (2 * half : ℕ) * ε) * ∑ m ∈ range (2 * half), w m ^ 2 := by ring

/-- Synthesis adds as little to a sum of squares as analysis does, being its transpose. -/
theorem sum_sq_gather_le (hε : 0 ≤ ε) (hb : b.Reconstructs ε) (half : ℕ) (c : ℕ → K) :
    ∑ m ∈ range (2 * half), b.gather half c m ^ 2 ≤
      (1 + (2 * half : ℕ) * ε) * ∑ j ∈ range (2 * half), c j ^ 2 := by
  set Q := ∑ m ∈ range (2 * half), b.gather half c m ^ 2 with hQ
  set R := ∑ j ∈ range (2 * half), c j ^ 2 with hR
  have hQ_nonneg : 0 ≤ Q := sum_nonneg fun m _ => sq_nonneg _
  have hR_nonneg : 0 ≤ R := sum_nonneg fun j _ => sq_nonneg _
  have hfactor : 0 ≤ 1 + (2 * half : ℕ) * ε :=
    add_nonneg zero_le_one (mul_nonneg (Nat.cast_nonneg _) hε)
  have hweigh : Q = ∑ j ∈ range (2 * half), c j * b.analysis half (b.gather half c) j := by
    rw [← sum_gather_mul]
    exact sum_congr rfl fun m _ => pow_two _
  have hsquare : Q * Q ≤ R * ((1 + (2 * half : ℕ) * ε) * Q) := by
    calc Q * Q = (∑ j ∈ range (2 * half), c j * b.analysis half (b.gather half c) j) ^ 2 := by
          rw [← hweigh, pow_two]
      _ ≤ R * ∑ j ∈ range (2 * half), b.analysis half (b.gather half c) j ^ 2 :=
          sum_mul_sq_le_sq_mul_sq _ _ _
      _ ≤ R * ((1 + (2 * half : ℕ) * ε) * Q) :=
          mul_le_mul_of_nonneg_left (sum_sq_analysis_le hε hb half _) hR_nonneg
  rcases hQ_nonneg.eq_or_lt with hzero | hpos
  · rw [← hzero]
    exact mul_nonneg hfactor hR_nonneg
  · have hcancel : Q * Q ≤ (1 + (2 * half : ℕ) * ε) * R * Q := hsquare.trans_eq (by ring)
    exact le_of_mul_le_mul_right hcancel hpos

theorem sum_sq_synthesize_le (hε : 0 ≤ ε) (hb : b.Reconstructs ε) (levels coarse : ℕ) (c : ℕ → K) :
    ∑ j ∈ range (coarse * 2 ^ levels), b.synthesize levels coarse c j ^ 2 ≤
        (1 + (coarse * 2 ^ levels : ℕ) * ε) ^ levels * ∑ j ∈ range (coarse * 2 ^ levels), c j ^ 2 ∧
      ∀ j, coarse * 2 ^ levels ≤ j → b.synthesize levels coarse c j = c j := by
  induction levels with
  | zero => simp [Bank.synthesize]
  | succ levels ih =>
    obtain ⟨hsum, hkeep⟩ := ih
    set half := coarse * 2 ^ levels with hhalf
    have hlength : coarse * 2 ^ (levels + 1) = 2 * half := by
      rw [hhalf, Nat.pow_succ']
      ring
    rw [hlength, synthesize_succ, ← hhalf]
    set z := b.synthesize levels coarse c with hz
    set η : K := (2 * half : ℕ) * ε with hη
    have hη_nonneg : 0 ≤ η := mul_nonneg (Nat.cast_nonneg _) hε
    have hη_le : (half : ℕ) * ε ≤ η := by
      rw [hη]
      exact mul_le_mul_of_nonneg_right (Nat.cast_le.mpr (by omega)) hε
    have htail : ∑ j ∈ range half, z (half + j) ^ 2 = ∑ j ∈ range half, c (half + j) ^ 2 :=
      sum_congr rfl fun j _ => by rw [hkeep _ (Nat.le_add_right half j)]
    have hpow : 1 ≤ (1 + η) ^ levels := one_le_pow₀ (le_add_of_nonneg_right hη_nonneg)
    have hz_le : ∑ j ∈ range (2 * half), z j ^ 2 ≤
        (1 + η) ^ levels * ∑ j ∈ range (2 * half), c j ^ 2 := by
      rw [two_mul, sum_range_add, sum_range_add, htail, mul_add]
      refine add_le_add (hsum.trans ?_) ?_
      · refine mul_le_mul_of_nonneg_right ?_ (sum_nonneg fun j _ => sq_nonneg _)
        exact pow_le_pow_left₀ (add_nonneg zero_le_one (mul_nonneg (Nat.cast_nonneg _) hε))
          (add_le_add le_rfl hη_le) levels
      · exact le_mul_of_one_le_left (sum_nonneg fun j _ => sq_nonneg _) hpow
    constructor
    · calc ∑ m ∈ range (2 * half), b.synthesis half z m ^ 2
          = ∑ m ∈ range (2 * half), b.gather half z m ^ 2 := by
            refine sum_congr rfl fun m hm => ?_
            rw [Bank.synthesis, if_pos (mem_range.mp hm)]
        _ ≤ (1 + η) * ∑ j ∈ range (2 * half), z j ^ 2 := sum_sq_gather_le hε hb half z
        _ ≤ (1 + η) * ((1 + η) ^ levels * ∑ j ∈ range (2 * half), c j ^ 2) :=
            mul_le_mul_of_nonneg_left hz_le (add_nonneg zero_le_one hη_nonneg)
        _ = (1 + η) ^ (levels + 1) * ∑ j ∈ range (2 * half), c j ^ 2 := by ring
    · intro m hm
      rw [Bank.synthesis, if_neg (by omega), hkeep m (by omega)]

/-! ## Changed coefficients -/

/-- The triangle inequality in the mean square, against numbers that are bounded one by one. -/
theorem sum_sq_add_le {n : ℕ} {u v : ℕ → K} {α β : K} (hα : 0 ≤ α) (hβ : 0 ≤ β)
    (hu : ∀ j < n, |u j| ≤ α) (hv : ∑ j ∈ range n, v j ^ 2 ≤ n * β ^ 2) :
    ∑ j ∈ range n, (u j + v j) ^ 2 ≤ n * (α + β) ^ 2 := by
  have hsum : ∑ j ∈ range n, |v j| ≤ n * β := by
    apply le_of_sq_le_sq _ (mul_nonneg (Nat.cast_nonneg n) hβ)
    calc (∑ j ∈ range n, |v j|) ^ 2 ≤ n * ∑ j ∈ range n, |v j| ^ 2 := by
          have hcauchy := sq_sum_le_card_mul_sum_sq (s := range n) (f := fun j => |v j|)
          rwa [card_range] at hcauchy
      _ = n * ∑ j ∈ range n, v j ^ 2 := by simp only [sq_abs]
      _ ≤ n * (n * β ^ 2) := mul_le_mul_of_nonneg_left hv (Nat.cast_nonneg n)
      _ = (n * β) ^ 2 := by ring
  have hterm : ∀ j ∈ range n, (u j + v j) ^ 2 ≤ α ^ 2 + 2 * α * |v j| + v j ^ 2 := by
    intro j hj
    have hle := hu j (mem_range.mp hj)
    calc (u j + v j) ^ 2 = u j ^ 2 + 2 * (u j * v j) + v j ^ 2 := by ring
      _ ≤ α ^ 2 + 2 * (α * |v j|) + v j ^ 2 := by
          have hsquare : u j ^ 2 ≤ α ^ 2 := sq_le_sq' (abs_le.mp hle).1 (abs_le.mp hle).2
          have hmixed : u j * v j ≤ α * |v j| := by
            refine (le_abs_self _).trans ?_
            rw [abs_mul]
            exact mul_le_mul_of_nonneg_right hle (abs_nonneg _)
          linarith
      _ = α ^ 2 + 2 * α * |v j| + v j ^ 2 := by ring
  calc ∑ j ∈ range n, (u j + v j) ^ 2
      ≤ ∑ j ∈ range n, (α ^ 2 + 2 * α * |v j| + v j ^ 2) := sum_le_sum hterm
    _ = n * α ^ 2 + 2 * α * ∑ j ∈ range n, |v j| + ∑ j ∈ range n, v j ^ 2 := by
        rw [sum_add_distrib, sum_add_distrib, sum_const, card_range, nsmul_eq_mul, mul_sum]
    _ ≤ n * α ^ 2 + 2 * α * (n * β) + n * β ^ 2 := by
        have hmixed : 2 * α * ∑ j ∈ range n, |v j| ≤ 2 * α * (n * β) :=
          mul_le_mul_of_nonneg_left hsum (mul_nonneg zero_le_two hα)
        linarith
    _ = n * (α + β) ^ 2 := by ring

/-- Synthesis of coefficients that are each within `δ` of the analysis of a signal. -/
theorem sum_sq_synthesize_sub_le (hε : 0 ≤ ε) (hS : 0 ≤ S) (hb : b.Reconstructs ε)
    (hb' : b.Bounded S) (levels coarse : ℕ) {η δ : K} (hη : 0 ≤ η) (hδ : 0 ≤ δ) (hB : 0 ≤ B)
    (hgain : (1 + (coarse * 2 ^ levels : ℕ) * ε) ^ levels ≤ η ^ 2)
    (hx : ∀ j < coarse * 2 ^ levels, |x j| ≤ B)
    (hc : ∀ j < coarse * 2 ^ levels, |c j - b.analyze levels (coarse * 2 ^ levels) x j| ≤ δ) :
    ∑ j ∈ range (coarse * 2 ^ levels), (b.synthesize levels coarse c j - x j) ^ 2 ≤
      (coarse * 2 ^ levels : ℕ) * (levelError ε S levels * B + η * δ) ^ 2 := by
  set n := coarse * 2 ^ levels with hn
  set y := b.analyze levels n x with hy
  have hsplit (j : ℕ) : b.synthesize levels coarse c j - x j =
      (b.synthesize levels coarse y j - x j) +
        b.synthesize levels coarse (fun j => c j - y j) j := by
    have hsum : c = fun j => y j + (c j - y j) := by
      funext j
      ring
    have hadd := congrFun (synthesize_add (b := b) levels coarse y fun j => c j - y j) j
    rw [← hsum] at hadd
    rw [hadd]
    ring
  have hchange : ∑ j ∈ range n, (c j - y j) ^ 2 ≤ n * δ ^ 2 := by
    calc ∑ j ∈ range n, (c j - y j) ^ 2 ≤ ∑ _j ∈ range n, δ ^ 2 := by
          refine sum_le_sum fun j hj => ?_
          have hle := hc j (mem_range.mp hj)
          exact sq_le_sq' (abs_le.mp hle).1 (abs_le.mp hle).2
      _ = n * δ ^ 2 := by rw [sum_const, card_range, nsmul_eq_mul]
  simp only [hsplit]
  refine sum_sq_add_le (mul_nonneg (levelError_nonneg hε hS levels) hB) (mul_nonneg hη hδ)
    (synthesize_analyze hε hS hb hb' levels coarse x hB hx).1 ?_
  calc ∑ j ∈ range n, b.synthesize levels coarse (fun j => c j - y j) j ^ 2
      ≤ (1 + n * ε) ^ levels * ∑ j ∈ range n, (c j - y j) ^ 2 :=
        (sum_sq_synthesize_le hε hb levels coarse _).1
    _ ≤ η ^ 2 * (n * δ ^ 2) := mul_le_mul hgain hchange (sum_nonneg fun j _ => sq_nonneg _)
        (sq_nonneg η)
    _ = n * (η * δ) ^ 2 := by ring

end AdaptiveLowpan.FilterBank
