import Mathlib.Data.Nat.Bitwise
import Mathlib.Data.List.Induction
import Mathlib.Tactic.Ring

/-! # Numbers as byte strings

Big-endian strings of a fixed width, their values, and the two directions of the
correspondence between them. -/

namespace AdaptiveLowpan.ByteWords

abbrev Bytes := List UInt8

def wordValue (bs : Bytes) : ℕ := bs.foldl (fun acc b => acc * 256 + b.toNat) 0

/-- The `width` low bytes of `v`, most significant first. -/
def wordBytes : ℕ → ℕ → Bytes
  | 0, _ => []
  | width + 1, v => wordBytes width (v / 256) ++ [UInt8.ofNat v]

@[simp] theorem wordValue_nil : wordValue [] = 0 := rfl

@[simp] theorem wordValue_concat (bs : Bytes) (b : UInt8) :
    wordValue (bs ++ [b]) = wordValue bs * 256 + b.toNat := by
  simp [wordValue, List.foldl_append]

theorem wordValue_wordBytes (width v : ℕ) : wordValue (wordBytes width v) = v % 256 ^ width := by
  induction width generalizing v with
  | zero => simp [wordBytes, Nat.mod_one]
  | succ width ih =>
    have hb : (UInt8.ofNat v).toNat = v % 256 := by simp
    rw [wordBytes, wordValue_concat, ih, hb, Nat.pow_succ, Nat.mul_comm (256 ^ width) 256, Nat.mod_mul]
    ring

theorem wordValue_wordBytes_of_lt {width v : ℕ} (h : v < 256 ^ width) :
    wordValue (wordBytes width v) = v := by
  rw [wordValue_wordBytes, Nat.mod_eq_of_lt h]

theorem wordValue_lt (bs : Bytes) : wordValue bs < 256 ^ bs.length := by
  induction bs using List.reverseRecOn with
  | nil => simp
  | append_singleton bs b ih =>
    have hb := b.toNat_lt
    rw [wordValue_concat, List.length_append, List.length_singleton, Nat.pow_succ]
    omega

/-- A fixed width loses nothing of the numbers that fit in it. -/
theorem wordBytes_inj {width v w : ℕ} (hv : v < 256 ^ width) (hw : w < 256 ^ width)
    (h : wordBytes width v = wordBytes width w) : v = w := by
  rw [← wordValue_wordBytes_of_lt hv, h, wordValue_wordBytes_of_lt hw]

/-! ## Shifts and masks as arithmetic -/

theorem toNat_shiftRight_toUInt8 (v : UInt32) {k : ℕ} (h : k < 32) :
    (v >>> UInt32.ofNat k).toUInt8.toNat = v.toNat / 2 ^ k % 256 := by
  rw [UInt32.toNat_toUInt8, UInt32.toNat_shiftRight, UInt32.toNat_ofNat', Nat.shiftRight_eq_div_pow]
  have hk : k % 2 ^ 32 % 32 = k := by omega
  rw [hk]

theorem toUInt8_shiftRight (v : UInt32) {k : ℕ} (h : k < 32) :
    (v >>> UInt32.ofNat k).toUInt8 = UInt8.ofNat (v.toNat / 2 ^ k) := by
  apply UInt8.toNat_inj.mp
  rw [toNat_shiftRight_toUInt8 v h, UInt8.toNat_ofNat']

theorem toNat_shiftIn {r : UInt32} (b : UInt8) (hr : r.toNat < 2 ^ 24) :
    ((r <<< 8) ||| b.toUInt32).toNat = r.toNat * 256 + b.toNat := by
  have hb : b.toNat < 2 ^ 8 := b.toNat_lt
  have hs : (r <<< 8).toNat = 2 ^ 8 * r.toNat := by
    rw [UInt32.toNat_shiftLeft, Nat.shiftLeft_eq]
    simp
    omega
  rw [UInt32.toNat_or, hs, UInt8.toNat_toUInt32, ← Nat.two_pow_add_eq_or_of_lt hb]
  omega

theorem toNat_packNibbles {high low : UInt8} (hh : high.toNat < 16) (hl : low.toNat < 16) :
    ((high <<< 4) ||| low).toNat = high.toNat * 16 + low.toNat := by
  have hl' : low.toNat < 2 ^ 4 := hl
  have hs : (high <<< 4).toNat = 2 ^ 4 * high.toNat := by
    rw [UInt8.toNat_shiftLeft, Nat.shiftLeft_eq]
    simp
    omega
  rw [UInt8.toNat_or, hs, ← Nat.two_pow_add_eq_or_of_lt hl']
  omega

@[simp] theorem toNat_highNibble (b : UInt8) : (b >>> 4).toNat = b.toNat / 16 := by
  rw [UInt8.toNat_shiftRight]
  simp [Nat.shiftRight_eq_div_pow]

@[simp] theorem toNat_lowNibble (b : UInt8) : (b &&& 0x0f).toNat = b.toNat % 16 := by
  rw [UInt8.toNat_and]
  exact Nat.and_two_pow_sub_one_eq_mod b.toNat 4

end AdaptiveLowpan.ByteWords
