import AdaptiveLowpan.Wavelet

/-! # The transforms stay inside their buffers

On a geometry that `validateTransform` accepts both transforms run to their end
without an access outside their buffers, and keep the lengths of the buffers. -/

namespace AdaptiveLowpan
open CheckedMemory CDouble CFloat

structure Geometry (count levels : ℕ) : Prop where
  count_le : count ≤ maxWindow
  levels_pos : 0 < levels
  levels_lt : levels < 64
  finest : 8 ≤ count >>> (levels - 1)
  divides : count % 2 ^ levels = 0

theorem Geometry.split {count levels : ℕ} (h : Geometry count levels) :
    count = (count >>> levels) * 2 ^ levels := by
  have hdiv := Nat.div_add_mod count (2 ^ levels)
  rw [h.divides, Nat.add_zero] at hdiv
  rw [Nat.shiftRight_eq_div_pow, Nat.mul_comm, hdiv]

theorem Geometry.coarsest_pos {count levels : ℕ} (h : Geometry count levels) :
    4 ≤ count >>> levels := by
  have hfinest := h.finest
  have hlevels : levels = (levels - 1) + 1 := by
    have := h.levels_pos
    omega
  rw [hlevels, Nat.shiftRight_add, Nat.shiftRight_eq_div_pow _ 1]
  omega

theorem Geometry.eight_le {count levels : ℕ} (h : Geometry count levels) : 8 ≤ count :=
  h.finest.trans (by rw [Nat.shiftRight_eq_div_pow]; exact Nat.div_le_self _ _)

theorem validateTransform_eq_ok_iff {count levels scratchCount : ℕ} (h : count ≤ scratchCount) :
    validateTransform count levels scratchCount = .ok () ↔ Geometry count levels := by
  unfold validateTransform
  constructor
  · intro hok
    split at hok
    · simp at hok
    rename_i h1
    split at hok
    · simp at hok
    rename_i h2
    split at hok
    · simp at hok
    rename_i h3
    exact ⟨by omega, by omega, by omega, by omega, by omega⟩
  · intro hg
    have h8 := hg.eight_le
    have hle := hg.count_le
    have hpos := hg.levels_pos
    have hlt := hg.levels_lt
    have hfinest := hg.finest
    have hdivides := hg.divides
    have hcoarse := hg.coarsest_pos
    rw [Nat.shiftRight_eq_div_pow] at hcoarse
    rw [if_neg (by omega), if_neg (by omega), if_neg (by omega)]

theorem le_of_validateTransform {count levels scratchCount : ℕ}
    (h : validateTransform count levels scratchCount = .ok ()) : count ≤ scratchCount := by
  by_contra hlt
  rw [validateTransform, if_pos (by omega)] at h
  cases h

variable {F D : Type} [CDouble D] [CFloat F D]

theorem le_length_scratch {count : ℕ} (h : count ≤ maxWindow) :
    count ≤ (List.replicate maxWindow (zeroFloat : F)).length := by
  rwa [List.length_replicate]

/-! ## Synthesis -/

/-- The body of the two loops of a synthesis level. -/
def addTap (coefficients : List F) (current i k : ℕ) (scratch : List F) : Outcome (List F) := do
  let index := (2 * i + k) % (current * 2)
  let low ← readAt coefficients i
  let high ← readAt coefficients (current + i)
  let sum ← readAt scratch index
  writeAt scratch index (add sum (ofDouble (db4Low k * toDouble low + db4High k * toDouble high)))

/-- `addTap` reads two coefficients and updates one scratch cell. -/
theorem addTap_eq {coefficients scratch : List F} {current i : ℕ} (k : ℕ) (hi : i < current)
    (hc : current * 2 ≤ coefficients.length) (hs : current * 2 ≤ scratch.length) :
    ∃ h : (2 * i + k) % (current * 2) < scratch.length,
      addTap coefficients current i k scratch = .ok (scratch.set ((2 * i + k) % (current * 2))
        (add scratch[(2 * i + k) % (current * 2)] (ofDouble
          (db4Low k * toDouble coefficients[i] + db4High k * toDouble coefficients[current + i])))) := by
  have hindex : (2 * i + k) % (current * 2) < current * 2 := Nat.mod_lt _ (by omega)
  refine ⟨by omega, ?_⟩
  rw [addTap, readAt_of_lt (by omega), ok_bind, readAt_of_lt (by omega), ok_bind, readAt_of_lt (by omega),
    ok_bind, writeAt_of_lt _ (by omega)]

theorem inverseLevel_of_loop {current : ℕ} {coefficients scratch scratch' : List F}
    (hc : current * 2 ≤ coefficients.length) (hs : current * 2 ≤ scratch.length)
    (hlength : scratch'.length = scratch.length)
    (hloop : loop (fun i scratch => loop (addTap coefficients current i) 0 8 scratch) 0 current
      (List.replicate (current * 2) zeroFloat ++ scratch.drop (current * 2)) = .ok scratch') :
    inverseLevel current coefficients scratch =
      .ok (scratch'.take (current * 2) ++ coefficients.drop (current * 2), scratch') := by
  have hclear : (List.replicate (current * 2) (zeroFloat : F)).length = current * 2 :=
    List.length_replicate
  have hblock : (scratch'.take (current * 2)).length = current * 2 := by
    rw [List.length_take]
    omega
  unfold inverseLevel
  simp only
  rw [overwrite_of_le (by omega), ok_bind, hclear]
  change (loop (fun i scratch => loop (addTap coefficients current i) 0 8 scratch) 0 current _ >>= _) = _
  rw [hloop, ok_bind, readSlice_of_le (by omega), List.drop_zero, ok_bind,
    overwrite_of_le (by omega), ok_bind, hblock]
  rfl

theorem length_cleared {current : ℕ} {scratch : List F} (hs : current * 2 ≤ scratch.length) :
    (List.replicate (current * 2) (zeroFloat : F) ++ scratch.drop (current * 2)).length =
      scratch.length := by
  rw [List.length_append, List.length_replicate, List.length_drop]
  omega

theorem inverseLevel_total (current : ℕ) (coefficients scratch : List F)
    (hc : current * 2 ≤ coefficients.length) (hs : current * 2 ≤ scratch.length) :
    ∃ coefficients' scratch', inverseLevel current coefficients scratch =
        .ok (coefficients', scratch') ∧
      coefficients'.length = coefficients.length ∧ scratch'.length = scratch.length := by
  obtain ⟨scratch', hloop, hlength⟩ := loop_total (R := Failure)
    (fun i scratch => loop (addTap coefficients current i) 0 8 scratch) 0 current _
    (fun _ (s : List F) => s.length = scratch.length) (length_cleared hs) (by
      intro i s _ hi hs'
      refine loop_total _ 0 8 _ (fun _ (s : List F) => s.length = scratch.length) hs' ?_
      intro k t _ _ ht
      obtain ⟨_, htap⟩ := addTap_eq k (show i < current by omega) hc (hs.trans_eq ht.symm)
      exact ⟨_, htap, by rw [List.length_set, ht]⟩)
  refine ⟨_, scratch', inverseLevel_of_loop hc hs hlength hloop, ?_, hlength⟩
  rw [List.length_append, List.length_take, List.length_drop]
  omega

theorem inverseLevels_total (levels current : ℕ) (coefficients scratch : List F)
    (hc : current * 2 ^ levels ≤ coefficients.length) (hs : current * 2 ^ levels ≤ scratch.length) :
    ∃ coefficients', inverseLevels levels current coefficients scratch = .ok coefficients' ∧
      coefficients'.length = coefficients.length := by
  induction levels generalizing current coefficients scratch with
  | zero => exact ⟨coefficients, rfl, rfl⟩
  | succ levels ih =>
    have hpow : current * 2 ^ (levels + 1) = current * 2 * 2 ^ levels := by
      rw [Nat.pow_succ]
      ring
    have hle : current * 2 ≤ current * 2 * 2 ^ levels :=
      Nat.le_mul_of_pos_right _ (Nat.two_pow_pos levels)
    obtain ⟨c', s', hlevel, hc', hs'⟩ := inverseLevel_total current coefficients scratch (by omega)
      (by omega)
    obtain ⟨c'', hrest, hc''⟩ := ih (current * 2) c' s' (by omega) (by omega)
    refine ⟨c'', ?_, by omega⟩
    rw [inverseLevels, hlevel, ok_bind]
    exact hrest

theorem db4Inverse_total {count levels : ℕ} (coefficients scratch : List F)
    (h : Geometry count levels) (hc : count ≤ coefficients.length) (hs : count ≤ scratch.length) :
    ∃ coefficients', db4Inverse coefficients count levels scratch = .ok coefficients' ∧
      coefficients'.length = coefficients.length := by
  have hsplit := h.split
  obtain ⟨c', hlevels, hlen⟩ := inverseLevels_total levels (count >>> levels) coefficients scratch
    (by omega) (by omega)
  refine ⟨c', ?_, hlen⟩
  rw [db4Inverse, (validateTransform_eq_ok_iff hs).mpr h, ok_bind, hlevels]

/-! ## Analysis -/

theorem forwardPair_total {values : List F} {current : ℕ} (i : ℕ) (hpos : 0 < current)
    (hv : current ≤ values.length) :
    ∃ pair : D × D, forwardPair values current i = .ok pair := by
  obtain ⟨pair, h, -⟩ := loop_total (R := Failure) (fun k (acc : D × D) => do
      let value ← readAt values ((2 * i + k) % current)
      return (acc.1 + db4Low k * toDouble value, acc.2 + db4High k * toDouble value))
    0 8 (lit 0, lit 0) (fun _ _ => True) trivial (by
      intro k acc _ _ _
      have hindex : (2 * i + k) % current < current := Nat.mod_lt _ hpos
      rw [readAt_of_lt (by omega), ok_bind]
      exact ⟨_, rfl, trivial⟩)
  exact ⟨pair, h⟩

def storePair (values : List F) (current i : ℕ) (scratch : List F) : Outcome (List F) := do
  let pair ← forwardPair values current i
  let scratch ← writeAt scratch i (ofDouble pair.1)
  writeAt scratch (current / 2 + i) (ofDouble pair.2)

theorem storePair_eq {values scratch : List F} {current i : ℕ} {pair : D × D}
    (hpair : forwardPair values current i = .ok pair) (hi : i < current / 2)
    (hs : current ≤ scratch.length) :
    storePair values current i scratch =
      .ok ((scratch.set i (ofDouble pair.1)).set (current / 2 + i) (ofDouble pair.2)) := by
  rw [storePair, hpair, ok_bind, writeAt_of_lt _ (by omega), ok_bind,
    writeAt_of_lt _ (by rw [List.length_set]; omega)]

theorem forwardLevel_of_loop {current : ℕ} {values scratch scratch' : List F}
    (hv : current ≤ values.length) (hs : current ≤ scratch'.length)
    (hloop : loop (storePair values current) 0 (current / 2) scratch = .ok scratch') :
    forwardLevel current values scratch =
      .ok (scratch'.take current ++ values.drop current, scratch') := by
  have hblock : (scratch'.take current).length = current := by
    rw [List.length_take]
    omega
  unfold forwardLevel
  simp only
  change (loop (storePair values current) 0 (current / 2) scratch >>= _) = _
  rw [hloop, ok_bind, readSlice_of_le (by omega), List.drop_zero, ok_bind,
    overwrite_of_le (by omega), ok_bind, hblock]
  rfl

theorem forwardLevel_total {current : ℕ} (values scratch : List F) (hpos : 0 < current)
    (hv : current ≤ values.length) (hs : current ≤ scratch.length) :
    ∃ values' scratch', forwardLevel current values scratch = .ok (values', scratch') ∧
      values'.length = values.length ∧ scratch'.length = scratch.length := by
  obtain ⟨scratch', hloop, hlength⟩ := loop_total (R := Failure) (storePair values current) 0
    (current / 2) _ (fun _ (s : List F) => s.length = scratch.length) rfl (by
      intro i s _ hi hs'
      obtain ⟨pair, hpair⟩ := forwardPair_total i hpos hv
      refine ⟨_, storePair_eq hpair (by omega) (by omega), ?_⟩
      rw [List.length_set, List.length_set, hs'])
  refine ⟨_, scratch', forwardLevel_of_loop hv (by omega) hloop, ?_, hlength⟩
  rw [List.length_append, List.length_take, List.length_drop]
  omega

theorem forwardLevels_total (levels current : ℕ) (values scratch : List F)
    (hpos : 2 ^ levels ≤ current) (hv : current ≤ values.length) (hs : current ≤ scratch.length) :
    ∃ values', forwardLevels levels current values scratch = .ok values' ∧
      values'.length = values.length := by
  induction levels generalizing current values scratch with
  | zero => exact ⟨values, rfl, rfl⟩
  | succ levels ih =>
    have hone := Nat.two_pow_pos levels
    rw [Nat.pow_succ] at hpos
    obtain ⟨v', s', hlevel, hv', hs'⟩ := forwardLevel_total values scratch (by omega) hv hs
    obtain ⟨v'', hrest, hv''⟩ := ih (current / 2) v' s'
      (by omega) (by omega) (by omega)
    refine ⟨v'', ?_, by omega⟩
    rw [forwardLevels, hlevel, ok_bind]
    exact hrest

/-- The forward transform returns on the valid geometries, and only there. -/
theorem db4Forward_total {count levels : ℕ} (values scratch : List F) (h : Geometry count levels)
    (hv : count ≤ values.length) (hs : count ≤ scratch.length) :
    ∃ values', db4Forward values count levels scratch = .ok values' ∧
      values'.length = values.length := by
  have hsplit := h.split
  have hcoarse := h.coarsest_pos
  have hpow : 2 ^ levels ≤ count := by
    rw [hsplit]
    exact Nat.le_mul_of_pos_left _ (by omega)
  obtain ⟨v', hlevels, hlen⟩ := forwardLevels_total levels count values scratch hpow hv hs
  refine ⟨v', ?_, hlen⟩
  rw [db4Forward, (validateTransform_eq_ok_iff hs).mpr h, ok_bind, hlevels]

theorem geometry_of_db4Forward {count levels : ℕ} {values scratch values' : List F}
    (hs : count ≤ scratch.length) (h : db4Forward values count levels scratch = .ok values') :
    Geometry count levels := by
  rw [db4Forward, bind_eq_ok_iff] at h
  obtain ⟨_, hvalid, _⟩ := h
  exact (validateTransform_eq_ok_iff hs).mp hvalid

end AdaptiveLowpan
