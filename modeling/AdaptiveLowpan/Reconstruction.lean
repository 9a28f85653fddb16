import AdaptiveLowpan.WaveletFilters
import Mathlib.Analysis.SpecialFunctions.Log.Basic

/-! # The db4 transforms reconstruct the window

The taps are given to sixteen digits, so the inverse transform returns the window up to a
millionth of its largest magnitude, on every geometry that the transforms accept. -/

namespace AdaptiveLowpan
open CheckedMemory FilterBank Finset

/-- What the digits of the taps leave open at one level. -/
noncomputable def tapError : ℝ := (1 / 10 ^ 11 : ℚ)

theorem tapError_eq : tapError = 1 / 10 ^ 11 := by norm_num [tapError]

theorem tapError_nonneg : 0 ≤ tapError := by norm_num [tapError_eq]

theorem db4_reconstructs : db4.Reconstructs tapError := Bank.reconstructs_cast db4Taps_defect_le

theorem db4_bounded : db4.Bounded 2 := by
  have hcast := Bank.bounded_cast (K := ℝ) db4Taps_bounded
  rwa [Rat.cast_ofNat] at hcast

theorem Geometry.levels_le {count levels : ℕ} (h : Geometry count levels) : levels ≤ 6 := by
  by_contra hlt
  have hpow : 2 ^ 6 ≤ 2 ^ (levels - 1) := Nat.pow_le_pow_right (by decide) (by omega)
  have hfinest := h.finest
  rw [Nat.shiftRight_eq_div_pow] at hfinest
  have hdiv : count / 2 ^ (levels - 1) ≤ 256 / 2 ^ 6 := Nat.div_le_div h.count_le hpow (by decide)
  omega

theorem levelError_tapError_le {levels : ℕ} (h : levels ≤ 6) :
    levelError tapError 2 levels ≤ 1 / 10 ^ 6 := by
  have hmono (n : ℕ) : levelError tapError 2 n ≤ levelError tapError 2 (n + 1) := by
    induction n with
    | zero => exact levelError_nonneg tapError_nonneg zero_le_two 1
    | succ n ih =>
      rw [levelError, levelError]
      linarith
  have hle : levelError tapError 2 levels ≤ levelError tapError 2 6 :=
    monotone_nat_of_le_succ hmono h
  refine hle.trans ?_
  norm_num [levelError, tapError_eq]

/-- The transforms return the window at every place up to its part of the error. -/
theorem synthesize_analyze_db4 {count levels : ℕ} (h : Geometry count levels) {x : ℕ → ℝ} {B : ℝ}
    (hx : ∀ j < count, |x j| ≤ B) {j : ℕ} (hj : j < count) :
    |db4.synthesize levels (count >>> levels) (db4.analyze levels count x) j - x j| ≤
      1 / 10 ^ 6 * B := by
  have hB : 0 ≤ B := (abs_nonneg (x j)).trans (hx j hj)
  have hsplit := h.split
  rw [hsplit] at hx hj
  have hnear := (synthesize_analyze tapError_nonneg zero_le_two db4_reconstructs db4_bounded levels
    (count >>> levels) x hB hx).1 j hj
  rw [← hsplit] at hnear
  exact hnear.trans (mul_le_mul_of_nonneg_right (levelError_tapError_le h.levels_le) hB)

/-- Whatever the scratch buffers hold, the inverse of the forward transform returns every
sample up to a millionth of the bound of the samples. -/
theorem db4Inverse_db4Forward [MathFunctions] [FloatPatterns] {count levels : ℕ}
    {x scratch scratch' : List ℝ} {B : ℝ}
    (hvalid : validateTransform count levels scratch.length = .ok ())
    (hvalid' : validateTransform count levels scratch'.length = .ok ())
    (hlength : x.length = count) (hx : ∀ a ∈ x, |a| ≤ B) :
    ∃ c x', db4Forward x count levels scratch = .ok c ∧
      db4Inverse c count levels scratch' = .ok x' ∧
      List.Forall₂ (fun a' a => |a' - a| ≤ 1 / 10 ^ 6 * B) x' x := by
  have hs := le_of_validateTransform hvalid
  have hs' := le_of_validateTransform hvalid'
  have hg := (validateTransform_eq_ok_iff hs).mp hvalid
  obtain ⟨c, hforward, hc, hanalyze⟩ := db4Forward_analyze x scratch hg hlength.ge hs
  obtain ⟨x', hinverse, hx', hsynthesize⟩ := db4Inverse_synthesize c scratch' hg (by omega) hs'
  refine ⟨c, x', hforward, hinverse, List.forall₂_iff_get.mpr ⟨hx'.trans hc, ?_⟩⟩
  intro j hj' hj
  have hbound : ∀ i < count, |signal x i| ≤ B := by
    intro i hi
    rw [← signal_eq (by omega)]
    exact hx _ (List.getElem_mem (by omega))
  have hnear := synthesize_analyze_db4 hg hbound (hj.trans_eq hlength)
  rwa [← hanalyze, ← hsynthesize, ← signal_eq hj', ← signal_eq hj] at hnear

/-- The patterns of the binary32 format: each stands for its value, and a number that has a
pattern is stored as one. -/
noncomputable abbrev binary32 : FloatPatterns where
  toBits := Function.invFun fun bits => ((Single.value ⟨bits⟩ : ℚ) : ℝ)
  ofBits bits := (Single.value ⟨bits⟩ : ℚ)

theorem binary32_stores (bits : UInt32) :
    binary32.ofBits (binary32.toBits (Single.value ⟨bits⟩ : ℚ)) = (Single.value ⟨bits⟩ : ℚ) :=
  Function.invFun_eq (f := fun bits => ((Single.value ⟨bits⟩ : ℚ) : ℝ)) ⟨bits, rfl⟩

theorem db4Inverse_db4Forward_impulse :
    letI : MathFunctions := ⟨Real.log, Real.exp⟩
    letI : FloatPatterns := binary32
    let x : List ℝ := 1 :: List.replicate 15 0
    ∃ c x', db4Forward x 16 2 (List.replicate 16 0) = .ok c ∧
      db4Inverse c 16 2 (List.replicate 256 1) = .ok x' ∧
      List.Forall₂ (fun a' a => |a' - a| ≤ 1 / 10 ^ 6 * 1) x' x := by
  let _ : MathFunctions := ⟨Real.log, Real.exp⟩
  let _ : FloatPatterns := binary32
  have hgeometry : Geometry 16 2 := (validateTransform_eq_ok_iff (Nat.le_refl 16)).mp rfl
  have hvalid (n : ℕ) (h : 16 ≤ n) : validateTransform 16 2 n = .ok () :=
    (validateTransform_eq_ok_iff h).mpr hgeometry
  have hlong : 16 ≤ (List.replicate 256 (1 : ℝ)).length := by
    rw [List.length_replicate]
    decide
  refine db4Inverse_db4Forward (hvalid _ List.length_replicate.ge) (hvalid _ hlong) (by simp) ?_
  intro a ha
  rcases List.mem_cons.mp ha with rfl | ha
  · norm_num
  · rw [List.eq_of_mem_replicate ha]
    norm_num

end AdaptiveLowpan
