import AdaptiveLowpan.HashChain
import Mathlib.Logic.Function.Iterate

/-! # Feedback shift registers and bursts

A register of `w` bits takes in one bit at a time and shifts towards its low end, where
the bit that falls out adds the generator. With the top bit of the generator set, a step
loses nothing, and bits that differ within `w` consecutive places leave different
registers behind. -/

namespace AdaptiveLowpan.ShiftRegister
open Function HashChain

variable {w : ℕ} {g : BitVec w}

def shift (g x : BitVec w) : BitVec w := if x.getLsbD 0 then (x >>> 1) ^^^ g else x >>> 1

theorem shift_xor (g x y : BitVec w) : shift g (x ^^^ y) = shift g x ^^^ shift g y := by
  have hcancel (a b : BitVec w) : a ^^^ g ^^^ (b ^^^ g) = a ^^^ b := by
    rw [BitVec.xor_assoc a g, ← BitVec.xor_assoc g b g, BitVec.xor_comm g b, BitVec.xor_assoc b g g,
      BitVec.xor_self, BitVec.xor_zero]
  simp only [shift, BitVec.getLsbD_xor, BitVec.ushiftRight_xor_distrib]
  cases x.getLsbD 0 <;> cases y.getLsbD 0
  · simp
  · simp [BitVec.xor_assoc]
  · simp only [Bool.xor_false, if_true, Bool.false_eq_true, if_false]
    rw [BitVec.xor_assoc, BitVec.xor_comm _ g, ← BitVec.xor_assoc]
  · simp [hcancel]

theorem shift_eq_zero (hg : g.msb = true) {x : BitVec w} (h : shift g x = 0#w) : x = 0#w := by
  have htop : (x >>> 1).msb = false := by simp [BitVec.msb_ushiftRight]
  cases hlow : x.getLsbD 0 with
  | true =>
    -- the generator's top bit is in the result
    rw [shift, hlow, if_pos rfl] at h
    have hmsb := congrArg BitVec.msb h
    rw [BitVec.msb_xor, htop, hg] at hmsb
    simp at hmsb
  | false =>
    rw [shift, hlow, if_neg Bool.false_ne_true] at h
    apply BitVec.eq_of_getLsbD_eq
    intro i _
    cases i with
    | zero => simpa using hlow
    | succ i =>
      have hbit := congrArg (fun y : BitVec w => y.getLsbD i) h
      simpa [Nat.add_comm 1 i] using hbit

theorem shift_injective (hg : g.msb = true) : Injective (shift g) := by
  intro x y h
  have hzero : shift g (x ^^^ y) = 0#w := by rw [shift_xor, h, BitVec.xor_self]
  exact BitVec.xor_eq_zero_iff.mp (shift_eq_zero hg hzero)

theorem width_pos (hg : g.msb = true) : 0 < w := by
  rcases Nat.eq_zero_or_pos w with rfl | hw
  · rw [BitVec.of_length_zero (x := g)] at hg
    simp at hg
  · exact hw

/-! ## Bits entering -/

def lowBit (w : ℕ) (b : Bool) : BitVec w := (BitVec.ofBool b).setWidth w

theorem getLsbD_lowBit (b : Bool) (i : ℕ) : (lowBit w b).getLsbD i = (decide (i = 0 ∧ 0 < w) && b) := by
  cases i with
  | zero => simp [lowBit, BitVec.getLsbD_setWidth]
  | succ i => simp [lowBit, BitVec.getLsbD_setWidth]

def feed (g x : BitVec w) (b : Bool) : BitVec w := shift g (x ^^^ lowBit w b)

theorem feed_lossless (hg : g.msb = true) : Lossless (feed g) := by
  constructor
  · intro b x y h
    exact (BitVec.xor_left_inj _).mp (shift_injective hg h)
  · intro x b b' h
    have hbits := (BitVec.xor_right_inj x).mp (shift_injective hg h)
    have hlow := congrArg (fun y : BitVec w => y.getLsbD 0) hbits
    simp only [getLsbD_lowBit, width_pos hg] at hlow
    simpa using hlow

def packed (w : ℕ) : List Bool → BitVec w
  | [] => 0#w
  | b :: bits => lowBit w b ^^^ (packed w bits <<< 1)

theorem getLsbD_packed (bits : List Bool) {i : ℕ} (hi : i < w) :
    (packed w bits).getLsbD i = bits.getD i false := by
  induction bits generalizing i with
  | nil => simp [packed]
  | cons b bits ih =>
    have hw : 0 < w := Nat.zero_lt_of_lt hi
    rw [packed, BitVec.getLsbD_xor, getLsbD_lowBit, BitVec.getLsbD_shiftLeft]
    cases i with
    | zero => simp [hw]
    | succ i =>
      have hbit := ih (i := i) (by omega)
      simp [hi, hbit]

/-- The register that bits were moved up in by one place falls back. -/
theorem shift_shiftLeft {x : BitVec w} (hx : x.msb = false) : shift g (x <<< 1) = x := by
  have hlow : (x <<< 1).getLsbD 0 = false := by simp
  rw [shift, hlow, if_neg Bool.false_ne_true]
  apply BitVec.eq_of_getLsbD_eq
  intro i hi
  rw [BitVec.getLsbD_ushiftRight, BitVec.getLsbD_shiftLeft]
  by_cases htop : 1 + i < w
  · simp [htop]
  · rw [BitVec.msb_eq_getLsbD_last, show w - 1 = i by omega] at hx
    simp [htop, hx]

theorem msb_packed {bits : List Bool} (h : bits.length < w) : (packed w bits).msb = false := by
  rw [BitVec.msb_eq_getLsbD_last, getLsbD_packed bits (by omega), List.getD_eq_getElem?_getD,
    List.getElem?_eq_none (by omega)]
  rfl

/-- Up to `w` bits that enter one by one have entered side by side. -/
theorem foldl_feed (g x : BitVec w) {bits : List Bool} (h : bits.length ≤ w) :
    bits.foldl (feed g) x = (shift g)^[bits.length] (x ^^^ packed w bits) := by
  induction bits generalizing x with
  | nil => simp [packed]
  | cons b bits ih =>
    rw [List.length_cons] at h
    rw [List.foldl_cons, ih _ (by omega), List.length_cons, iterate_succ_apply, packed,
      ← BitVec.xor_assoc, shift_xor, shift_shiftLeft (msb_packed (by omega))]
    rfl

/-- A register tells lists of up to `w` bits apart. -/
theorem foldl_feed_inj (hg : g.msb = true) (x : BitVec w) {xs ys : List Bool}
    (hlength : xs.length = ys.length) (hw : xs.length ≤ w)
    (h : xs.foldl (feed g) x = ys.foldl (feed g) x) : xs = ys := by
  rw [foldl_feed g x hw, foldl_feed g x (hlength ▸ hw), hlength] at h
  have hpacked := (BitVec.xor_right_inj x).mp ((shift_injective hg).iterate _ h)
  apply List.ext_getElem hlength
  intro i hi hi'
  have hbit := congrArg (fun y : BitVec w => y.getLsbD i) hpacked
  simp only [getLsbD_packed _ (Nat.lt_of_lt_of_le hi hw)] at hbit
  simpa [hi, hi'] using hbit

/-! ## Bursts -/

/-- The bits differ, and only within `width` consecutive places. -/
structure Burst (width : ℕ) (xs ys : List Bool) : Prop where
  changed : xs ≠ ys
  within : ∃ start, ∀ i, xs[i]? ≠ ys[i]? → start ≤ i ∧ i < start + width

theorem foldl_feed_ne_of_burst (hg : g.msb = true) (x : BitVec w) {xs ys : List Bool}
    (hlength : xs.length = ys.length) (hburst : Burst w xs ys) :
    xs.foldl (feed g) x ≠ ys.foldl (feed g) x := by
  obtain ⟨hchanged, start, hwithin⟩ := hburst
  have hsame {i : ℕ} (hi : i < start ∨ start + w ≤ i) : xs[i]? = ys[i]? := by
    by_contra hne
    have := hwithin i hne
    omega
  have hbefore : xs.take start = ys.take start := by
    apply List.ext_getElem?
    intro i
    rw [List.getElem?_take, List.getElem?_take]
    split
    · exact hsame (Or.inl ‹_›)
    · rfl
  have hafter : (xs.drop start).drop w = (ys.drop start).drop w := by
    apply List.ext_getElem?
    intro i
    rw [List.drop_drop, List.drop_drop, List.getElem?_drop, List.getElem?_drop]
    exact hsame (Or.inr (by omega))
  have hsplit (zs : List Bool) :
      zs = zs.take start ++ ((zs.drop start).take w ++ (zs.drop start).drop w) := by
    rw [List.take_append_drop, List.take_append_drop]
  intro heq
  rw [hsplit xs, hsplit ys, hbefore, hafter, List.foldl_append, List.foldl_append,
    List.foldl_append, List.foldl_append] at heq
  -- what enters behind the burst cannot make the registers agree again
  have hmiddle := foldl_injective (feed_lossless hg) _ heq
  have hwindow := foldl_feed_inj hg _ (by simp [hlength]) (List.length_take_le _ _) hmiddle
  exact hchanged (by rw [hsplit xs, hsplit ys, hbefore, hwindow, hafter])

end AdaptiveLowpan.ShiftRegister
