import AdaptiveLowpan.ExactArithmetic
import AdaptiveLowpan.FilterBank
import AdaptiveLowpan.RationalArithmetic
import AdaptiveLowpan.WaveletBounds

/-! # The db4 transforms are those of a filter bank

Over the real numbers the loops of the two transforms compute what the analysis and the
synthesis of the db4 taps are, level by level. -/

namespace AdaptiveLowpan
open CheckedMemory FilterBank Finset CFloat

/-- The taps of the sources, as the rational numbers that they denote. -/
def db4Taps : Bank ℚ := ⟨8, db4Low, db4High⟩

/-- The double-shift orthogonality of the taps, up to their digits. -/
theorem db4Taps_defect_le : ∀ p < 2, ∑ δ ∈ db4Taps.spread, |db4Taps.defect p δ| ≤ 1 / 10 ^ 11 := by
  decide +kernel

theorem db4Taps_bounded : db4Taps.Bounded 2 := ⟨by decide +kernel, by decide +kernel⟩

noncomputable def db4 : Bank ℝ := db4Taps.cast

def signal (xs : List ℝ) (j : ℕ) : ℝ := xs.getD j 0

theorem signal_eq {xs : List ℝ} {j : ℕ} (h : j < xs.length) : xs[j] = signal xs j := by
  rw [signal, List.getD_eq_getElem xs 0 h]

theorem signal_mem {xs : List ℝ} {i : ℕ} (h : i < xs.length) : signal xs i ∈ xs := by
  rw [← signal_eq h]
  exact List.getElem_mem h

theorem signal_set {xs : List ℝ} {i : ℕ} (h : i < xs.length) (a : ℝ) (j : ℕ) :
    signal (xs.set i a) j = if j = i then a else signal xs j := by
  simp only [signal, List.getD_eq_getElem?_getD, List.getElem?_set]
  split
  · rename_i hij
    rw [if_pos hij.symm, Option.getD_some]
  · rename_i hij
    rw [if_neg (Ne.symm hij)]

theorem signal_overwrite {block xs : List ℝ} {n : ℕ} (hn : n ≤ block.length) (j : ℕ) :
    signal (block.take n ++ xs.drop n) j = if j < n then signal block j else signal xs j := by
  have hlength : (block.take n).length = n := by rw [List.length_take, Nat.min_eq_left hn]
  simp only [signal, List.getD_eq_getElem?_getD]
  split
  · rename_i hj
    rw [List.getElem?_append_left (by omega), List.getElem?_take_of_lt hj]
  · rename_i hj
    rw [List.getElem?_append_right (by omega), List.getElem?_drop, hlength,
      Nat.add_sub_cancel' (by omega)]

variable [MathFunctions]

theorem db4Low_real (k : ℕ) : (db4Low k : ℝ) = db4.low k := rfl

theorem db4High_real (k : ℕ) : (db4High k : ℝ) = db4.high k := by
  have hcast : db4.high k = ((db4High k : ℚ) : ℝ) := rfl
  rw [hcast, db4High, db4High]
  split
  · rfl
  · exact (Rat.cast_neg _).symm

variable [FloatPatterns]

theorem zeroFloat_real : (zeroFloat : ℝ) = 0 := Rat.cast_zero

/-! ## Analysis -/

theorem forwardPair_eq {values : List ℝ} {half : ℕ} (i : ℕ) (hhalf : 0 < half)
    (hv : 2 * half ≤ values.length) :
    forwardPair values (2 * half) i = .ok (db4.response half db4.low (signal values) i,
      db4.response half db4.high (signal values) i) := by
  obtain ⟨pair, hloop, hlow, hhigh⟩ := loop_total (R := Failure) (fun k (acc : ℝ × ℝ) => do
      let value ← readAt values ((2 * i + k) % (2 * half))
      return (acc.1 + db4Low k * toDouble value, acc.2 + db4High k * toDouble value))
    0 8 (CDouble.lit 0, CDouble.lit 0)
    (fun k acc =>
      acc.1 = ∑ t ∈ range k, db4.low t * signal values ((2 * i + t) % (2 * half)) ∧
      acc.2 = ∑ t ∈ range k, db4.high t * signal values ((2 * i + t) % (2 * half)))
    ⟨Rat.cast_zero, Rat.cast_zero⟩ (by
      intro k acc _ _ hacc
      have hplace : (2 * i + k) % (2 * half) < values.length :=
        (Nat.mod_lt _ (by omega)).trans_le hv
      rw [readAt_of_lt hplace, ok_bind, signal_eq hplace, db4Low_real, db4High_real]
      refine ⟨_, rfl, ?_, ?_⟩
      · rw [sum_range_succ, ← hacc.1]
        rfl
      · rw [sum_range_succ, ← hacc.2]
        rfl)
  rw [forwardPair]
  exact hloop.trans (congrArg Except.ok (Prod.ext hlow hhigh))

theorem forwardLevel_eq (values scratch : List ℝ) {half : ℕ} (hhalf : 0 < half)
    (hv : 2 * half ≤ values.length) (hs : 2 * half ≤ scratch.length) :
    ∃ values' scratch', forwardLevel (2 * half) values scratch = .ok (values', scratch') ∧
      values'.length = values.length ∧ scratch'.length = scratch.length ∧
      signal values' = db4.analysis half (signal values) := by
  have hdiv : 2 * half / 2 = half := Nat.mul_div_cancel_left half (by decide)
  obtain ⟨scratch', hloop, hlength, hpairs⟩ := loop_total (R := Failure)
    (storePair values (2 * half)) 0 (2 * half / 2) scratch
    (fun i (s : List ℝ) => s.length = scratch.length ∧ ∀ j < i,
      signal s j = db4.response half db4.low (signal values) j ∧
      signal s (half + j) = db4.response half db4.high (signal values) j)
    ⟨rfl, by simp⟩ (by
      intro i s _ hi hs'
      have hpair := storePair_eq (forwardPair_eq i hhalf hv) (by omega) (hs.trans_eq hs'.1.symm)
      rw [hdiv] at hi hpair
      refine ⟨_, hpair, by rw [List.length_set, List.length_set, hs'.1], ?_⟩
      intro j hj
      rw [signal_set (by rw [List.length_set]; omega), signal_set (by omega),
        signal_set (by rw [List.length_set]; omega), signal_set (by omega), if_neg (by omega)]
      by_cases hji : j = i
      · rw [hji, if_pos rfl, if_pos rfl]
        exact ⟨rfl, rfl⟩
      · rw [if_neg hji, if_neg (by omega), if_neg (by omega)]
        exact hs'.2 j (by omega))
  rw [hdiv] at hpairs
  refine ⟨_, scratch', forwardLevel_of_loop hv (by omega) hloop, ?_, hlength, ?_⟩
  · rw [List.length_append, List.length_take, List.length_drop]
    omega
  · funext j
    rw [signal_overwrite (by omega), Bank.analysis]
    by_cases hj : j < half
    · rw [if_pos (by omega), if_pos hj, (hpairs j (by omega)).1]
    by_cases hj' : j < 2 * half
    · have hhigh := (hpairs (j - half) (by omega)).2
      rw [Nat.add_sub_cancel' (by omega)] at hhigh
      rw [if_pos hj', if_neg hj, if_pos hj', hhigh]
    · rw [if_neg hj', if_neg hj, if_neg hj']

/-! ## Synthesis -/

/-- What index `i` and tap `k` of one synthesis level add at place `m`. -/
noncomputable def tapPart (half : ℕ) (c : ℕ → ℝ) (m i k : ℕ) : ℝ :=
  if (2 * i + k) % (2 * half) = m then db4.low k * c i + db4.high k * c (half + i) else 0

theorem addTaps_eq {coefficients scratch : List ℝ} {half i : ℕ} (hi : i < half)
    (hc : half * 2 ≤ coefficients.length) (hs : half * 2 ≤ scratch.length) :
    ∃ scratch', loop (addTap coefficients half i) 0 8 scratch = .ok scratch' ∧
      scratch'.length = scratch.length ∧ ∀ m < half * 2, signal scratch' m =
        signal scratch m + ∑ k ∈ range 8, tapPart half (signal coefficients) m i k := by
  obtain ⟨scratch', hloop, hlength, hsum⟩ := loop_total (R := Failure)
    (addTap coefficients half i) 0 8 scratch
    (fun k (s : List ℝ) => s.length = scratch.length ∧ ∀ m < half * 2,
      signal s m = signal scratch m + ∑ l ∈ range k, tapPart half (signal coefficients) m i l)
    ⟨rfl, fun m _ => by rw [range_zero, sum_empty, add_zero]⟩ (by
      intro k s _ _ hs'
      obtain ⟨hplace, htap⟩ := addTap_eq k hi hc (hs.trans_eq hs'.1.symm)
      refine ⟨_, htap, by rw [List.length_set, hs'.1], ?_⟩
      intro m hm
      rw [signal_set hplace, sum_range_succ, ← add_assoc, ← hs'.2 m hm, tapPart, Nat.mul_comm 2 half,
        signal_eq, signal_eq, signal_eq, db4Low_real, db4High_real]
      by_cases hm' : m = (2 * i + k) % (half * 2)
      · rw [if_pos hm', if_pos hm'.symm, hm']
        rfl
      · rw [if_neg hm', if_neg (Ne.symm hm'), add_zero])
  exact ⟨scratch', hloop, hlength, hsum⟩

theorem inverseLevel_eq (half : ℕ) (coefficients scratch : List ℝ)
    (hc : half * 2 ≤ coefficients.length) (hs : half * 2 ≤ scratch.length) :
    ∃ coefficients' scratch', inverseLevel half coefficients scratch =
        .ok (coefficients', scratch') ∧
      coefficients'.length = coefficients.length ∧ scratch'.length = scratch.length ∧
      signal coefficients' = db4.synthesis half (signal coefficients) := by
  have hcleared (m : ℕ) (hm : m < half * 2) :
      signal (List.replicate (half * 2) zeroFloat ++ scratch.drop (half * 2)) m = 0 := by
    have hlength : m < (List.replicate (half * 2) (zeroFloat : ℝ)).length := by
      rwa [List.length_replicate]
    rw [signal, List.getD_append _ _ _ _ hlength, List.getD_eq_getElem _ _ hlength,
      List.getElem_replicate, zeroFloat_real]
  obtain ⟨scratch', hloop, hlength, hsum⟩ := loop_total (R := Failure)
    (fun i scratch => loop (addTap coefficients half i) 0 8 scratch) 0 half _
    (fun i (s : List ℝ) => s.length = scratch.length ∧ ∀ m < half * 2,
      signal s m = ∑ j ∈ range i, ∑ k ∈ range 8, tapPart half (signal coefficients) m j k)
    ⟨length_cleared hs, fun m hm => by rw [hcleared m hm, range_zero, sum_empty]⟩ (by
      intro i s _ hi hs'
      obtain ⟨s', hinner, hlength', hsum⟩ := addTaps_eq (show i < half by omega) hc
        (hs.trans_eq hs'.1.symm)
      refine ⟨s', hinner, hlength'.trans hs'.1, fun m hm => ?_⟩
      rw [hsum m hm, hs'.2 m hm, ← sum_range_succ (fun j => ∑ k ∈ range 8, tapPart half _ m j k)])
  refine ⟨_, scratch', inverseLevel_of_loop hc hs hlength hloop, ?_, hlength, ?_⟩
  · rw [List.length_append, List.length_take, List.length_drop]
    omega
  · funext m
    rw [signal_overwrite (by omega), Bank.synthesis, Nat.mul_comm 2 half]
    by_cases hm : m < half * 2
    · rw [if_pos hm, if_pos hm, hsum m hm, Nat.zero_add]
      rfl
    · rw [if_neg hm, if_neg hm]

/-! ## All the levels -/

theorem forwardLevels_eq (levels coarse : ℕ) (values scratch : List ℝ) (hcoarse : 0 < coarse)
    (hv : coarse * 2 ^ levels ≤ values.length) (hs : coarse * 2 ^ levels ≤ scratch.length) :
    ∃ values', forwardLevels levels (coarse * 2 ^ levels) values scratch = .ok values' ∧
      values'.length = values.length ∧
      signal values' = db4.analyze levels (coarse * 2 ^ levels) (signal values) := by
  induction levels generalizing values scratch with
  | zero => exact ⟨values, rfl, rfl, rfl⟩
  | succ levels ih =>
    set half := coarse * 2 ^ levels with hhalf
    have hpos : 0 < half := Nat.mul_pos hcoarse (Nat.two_pow_pos levels)
    have hlength : coarse * 2 ^ (levels + 1) = 2 * half := by
      rw [hhalf, Nat.pow_succ']
      ring
    rw [hlength] at hv hs ⊢
    obtain ⟨v', s', hlevel, hv', hs', hsignal⟩ := forwardLevel_eq values scratch hpos hv hs
    obtain ⟨v'', hrest, hv'', hsignal'⟩ := ih v' s' (by omega) (by omega)
    refine ⟨v'', ?_, by omega, ?_⟩
    · rw [forwardLevels, hlevel, ok_bind, Nat.mul_div_cancel_left half (by decide)]
      exact hrest
    · rw [hsignal', hsignal, Bank.analyze, Nat.mul_div_cancel_left half (by decide)]

theorem inverseLevels_eq (levels coarse : ℕ) (coefficients scratch : List ℝ)
    (hc : coarse * 2 ^ levels ≤ coefficients.length) (hs : coarse * 2 ^ levels ≤ scratch.length) :
    ∃ coefficients', inverseLevels levels coarse coefficients scratch = .ok coefficients' ∧
      coefficients'.length = coefficients.length ∧
      signal coefficients' = db4.synthesize levels coarse (signal coefficients) := by
  induction levels generalizing coarse coefficients scratch with
  | zero => exact ⟨coefficients, rfl, rfl, rfl⟩
  | succ levels ih =>
    have hlength : coarse * 2 ^ (levels + 1) = coarse * 2 * 2 ^ levels := by
      rw [Nat.pow_succ']
      ring
    have hle : coarse * 2 ≤ coarse * 2 * 2 ^ levels :=
      Nat.le_mul_of_pos_right _ (Nat.two_pow_pos levels)
    rw [hlength] at hc hs
    obtain ⟨c', s', hlevel, hc', hs', hsignal⟩ :=
      inverseLevel_eq coarse coefficients scratch (by omega) (by omega)
    obtain ⟨c'', hrest, hc'', hsignal'⟩ :=
      ih (coarse * 2) c' s' (by omega) (by omega)
    refine ⟨c'', ?_, by omega, ?_⟩
    · rw [inverseLevels, hlevel, ok_bind]
      exact hrest
    · rw [hsignal', hsignal, Bank.synthesize]

/-- The forward transform of a valid geometry is the analysis of the window. -/
theorem db4Forward_analyze {count levels : ℕ} (values scratch : List ℝ) (h : Geometry count levels)
    (hv : count ≤ values.length) (hs : count ≤ scratch.length) :
    ∃ values', db4Forward values count levels scratch = .ok values' ∧
      values'.length = values.length ∧
      signal values' = db4.analyze levels count (signal values) := by
  have hsplit := h.split
  have hcoarse := h.coarsest_pos
  obtain ⟨v', hlevels, hlength, hsignal⟩ := forwardLevels_eq levels (count >>> levels)
    values scratch (by omega) (by omega) (by omega)
  rw [← hsplit] at hlevels hsignal
  refine ⟨v', ?_, hlength, hsignal⟩
  rw [db4Forward, (validateTransform_eq_ok_iff hs).mpr h, ok_bind, hlevels]

/-- The inverse transform of a valid geometry is the synthesis of the coefficients. -/
theorem db4Inverse_synthesize {count levels : ℕ} (coefficients scratch : List ℝ)
    (h : Geometry count levels) (hc : count ≤ coefficients.length) (hs : count ≤ scratch.length) :
    ∃ coefficients', db4Inverse coefficients count levels scratch = .ok coefficients' ∧
      coefficients'.length = coefficients.length ∧
      signal coefficients' = db4.synthesize levels (count >>> levels) (signal coefficients) := by
  have hsplit := h.split
  obtain ⟨c', hlevels, hlength, hsignal⟩ := inverseLevels_eq levels (count >>> levels)
    coefficients scratch (by omega) (by omega)
  refine ⟨c', ?_, hlength, hsignal⟩
  rw [db4Inverse, (validateTransform_eq_ok_iff hs).mpr h, ok_bind, hlevels]

end AdaptiveLowpan
