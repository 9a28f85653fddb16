import AdaptiveLowpan.ConfigSlots
import AdaptiveLowpan.DecimalTexts

/-! # Integers in the configuration file

A value goes through `strtoul` and a conversion to the type of its field. Neither is checked where
it wraps around, but for the fields of one byte, which are compared with 255 in between. -/

namespace AdaptiveLowpan
open ByteWords

/-! ## Reading -/

def DecimalText.unsigned (d : DecimalText) : ℕ :=
  if d.sign = .minus then (2 ^ 64 - d.magnitude) % 2 ^ 64 else d.magnitude

theorem DecimalText.value_unsigned (d : DecimalText) :
    d.value = -(d.magnitude : ℤ) ∧ d.unsigned = (2 ^ 64 - d.magnitude) % 2 ^ 64 ∨
      d.value = d.magnitude ∧ d.unsigned = d.magnitude := by
  rw [value, unsigned]
  by_cases hsign : d.sign = .minus
  · rw [if_pos hsign, if_pos hsign]
    exact .inl ⟨rfl, rfl⟩
  · rw [if_neg hsign, if_neg hsign]
    exact .inr ⟨rfl, rfl⟩

theorem parseUnsigned_text (d : DecimalText) :
    parseUnsigned d.text = if d.magnitude > ulongMax then .error .format else .ok d.unsigned := by
  have hpos := List.length_pos_of_ne_nil d.digits_ne
  have hrest : d.after ≠ d.text := by
    intro heq
    have hlength := congrArg List.length heq
    simp only [DecimalText.text, List.length_append] at hlength
    omega
  have htrim : trim d.after = [] := TextLines.trim_eq_nil.mpr d.after_space
  rw [parseUnsigned, d.strtoul_text]
  by_cases hlarge : d.magnitude > ulongMax
  · simp [hlarge]
  · simp [hlarge, hrest, htrim, DecimalText.unsigned]

theorem exists_text_of_parseUnsigned {text : Bytes} {n : ℕ} (h : parseUnsigned text = .ok n) :
    ∃ d : DecimalText, d.text = text := by
  rw [parseUnsigned] at h
  split at h
  · cases h
  rename_i hnot
  simp only [not_or, not_not] at hnot
  exact exists_decimalText_of_strtoul hnot.2.1 (TextLines.trim_eq_nil.mp hnot.2.2)

/-! ## Fields -/

inductive IntegerField where
  | recoveryHold | windowSize | waveletLevels | contentFormat
  | quantBits (state : AdaptiveState)
  | blockSzx (state : AdaptiveState)

namespace IntegerField

def slot : IntegerField → Slot
  | recoveryHold => .recoveryHold
  | windowSize => .windowSize
  | waveletLevels => .waveletLevels
  | contentFormat => .contentFormat
  | quantBits state => .quantBits state
  | blockSzx state => .blockSzx state

def number {D : Type} (config : AdaptiveConfig D) : IntegerField → ℕ
  | recoveryHold => config.recoveryHold.toNat
  | windowSize => config.windowSize
  | waveletLevels => config.waveletLevels.toNat
  | contentFormat => config.contentFormat.toNat
  | quantBits state => (config.quantBits state).toNat
  | blockSzx state => (config.blockSzx state).toNat

def limit : IntegerField → ℕ
  | windowSize => 2 ^ 64
  | blockSzx _ => 2 ^ 8
  | _ => 2 ^ 32

/-- The integers that a field does not hold, but that end up in it as another number. -/
def Wraps (field : IntegerField) (z : ℤ) : Prop :=
  match field with
  | windowSize => -2 ^ 64 < z ∧ z < 0
  | blockSzx _ => -2 ^ 64 < z ∧ z < -2 ^ 64 + 2 ^ 8
  | _ => -2 ^ 64 < z ∧ z < 0 ∨ 2 ^ 32 ≤ z ∧ z < 2 ^ 64

instance : (field : IntegerField) → (z : ℤ) → Decidable (field.Wraps z)
  | windowSize, z => inferInstanceAs (Decidable (-2 ^ 64 < z ∧ z < 0))
  | blockSzx _, z => inferInstanceAs (Decidable (-2 ^ 64 < z ∧ z < -2 ^ 64 + 2 ^ 8))
  | recoveryHold, z | waveletLevels, z | contentFormat, z | quantBits _, z =>
    inferInstanceAs (Decidable (-2 ^ 64 < z ∧ z < 0 ∨ 2 ^ 32 ≤ z ∧ z < 2 ^ 64))

/-- What the conversion to the type of a field makes of an `unsigned long`. -/
def store : IntegerField → ℕ → Option ℕ
  | windowSize, n => some n
  | blockSzx _, n => if n > 255 then none else some n
  | _, n => some (n % 2 ^ 32)

end IntegerField

section
variable {D : Type} [CDouble D] [CStrtod D] {field : IntegerField} {key value : Bytes}

theorem parse_of_store {n m : ℕ} (hvalue : parseUnsigned value = .ok n)
    (hstore : field.store n = some m) : ∃ v : field.slot.Value D, field.slot.parse value = .ok v ∧
      ∀ config : AdaptiveConfig D, field.number (field.slot.set v config) = m := by
  cases field with
  | windowSize =>
    cases hstore
    exact ⟨n, hvalue, fun _ => rfl⟩
  | blockSzx state =>
    rw [IntegerField.store] at hstore
    split at hstore
    · cases hstore
    rename_i hfits
    cases hstore
    refine ⟨UInt8.ofNat n, ?_, fun config => ?_⟩
    · simp only [IntegerField.slot, Slot.parse, hvalue]
      exact if_neg hfits
    · simp only [IntegerField.number, IntegerField.slot, Slot.set, Function.update_self]
      exact UInt8.toNat_ofNat_of_lt' (Nat.lt_succ_of_le (not_lt.mp hfits))
  | quantBits state =>
    cases hstore
    refine ⟨UInt32.ofNat n, ?_, fun config => ?_⟩
    · simp only [IntegerField.slot, Slot.parse, hvalue]
      rfl
    · simp only [IntegerField.number, IntegerField.slot, Slot.set, Function.update_self]
      exact UInt32.toNat_ofNat'
  | recoveryHold | waveletLevels | contentFormat =>
    cases hstore
    refine ⟨UInt32.ofNat n, ?_, fun config => UInt32.toNat_ofNat'⟩
    simp only [IntegerField.slot, Slot.parse, hvalue]
    rfl

theorem parse_of_store_none {n : ℕ} (hvalue : parseUnsigned value = .ok n)
    (hstore : field.store n = none) :
    (field.slot.parse value : Except Failure (field.slot.Value D)) = .error .format := by
  cases field with
  | blockSzx state =>
    rw [IntegerField.store] at hstore
    split at hstore
    · rename_i hlarge
      simp only [IntegerField.slot, Slot.parse, hvalue]
      exact if_pos hlarge
    · cases hstore
  | _ => cases hstore

/-- What a field stores is what its conversion makes of the `unsigned long` that is read. -/
theorem number_of_applyKey (hkey : keyAddress key = .ok (some field.slot))
    (config : AdaptiveConfig D) (m : ℕ) :
    (∃ config', applyKey config key value = .ok (some config') ∧ field.number config' = m) ↔
      ∃ n, parseUnsigned value = .ok n ∧ field.store n = some m := by
  rw [applyKey_eq, keySetting, hkey, setting_into]
  cases hvalue : parseUnsigned value with
  | error code =>
    have hparse : (field.slot.parse value : Except Failure (field.slot.Value D)) = .error code := by
      cases field <;> simp only [IntegerField.slot, Slot.parse, hvalue] <;> rfl
    rw [hparse]
    simp [Handled.of, Except.map]
  | ok n =>
    cases hstore : field.store n with
    | none =>
      rw [parse_of_store_none hvalue hstore]
      simp [Handled.of, Except.map, hstore]
    | some m' =>
      obtain ⟨v, hparse, hnumber⟩ := parse_of_store (D := D) hvalue hstore
      rw [hparse]
      simp [Handled.of, Except.map, hstore, hnumber]

end

/-! ## Meaning -/

/-- A setting means what its text says: the number that is stored is the integer that the text
denotes, and an integer that the field does not hold is refused. -/
structure MeansWhatItSays (D : Type) [CDouble D] [CStrtod D] (field : IntegerField)
    (key value : Bytes) : Prop where
  stored : ∀ config config' : AdaptiveConfig D, applyKey config key value = .ok (some config') →
    DenotesInteger value (field.number config')
  refused : ∀ z, DenotesInteger value z → z < 0 ∨ (field.limit : ℤ) ≤ z →
    ∀ config config' : AdaptiveConfig D, applyKey config key value ≠ .ok (some config')

theorem store_of_mem {field : IntegerField} {d : DecimalText} (hpos : 0 ≤ d.value)
    (hlimit : d.value < field.limit) : d.magnitude ≤ ulongMax ∧
      ∃ m : ℕ, field.store d.unsigned = some m ∧ (m : ℤ) = d.value := by
  have hread := d.value_unsigned
  cases field <;> simp only [IntegerField.limit, IntegerField.store, ulongMax] at hlimit ⊢
  case windowSize => exact ⟨by omega, d.unsigned, rfl, by omega⟩
  case blockSzx state => exact ⟨by omega, d.unsigned, if_neg (by omega), by omega⟩
  all_goals exact ⟨by omega, d.unsigned % 2 ^ 32, rfl, by omega⟩

theorem store_iff_wraps {field : IntegerField} {d : DecimalText}
    (hout : d.value < 0 ∨ (field.limit : ℤ) ≤ d.value) :
    (d.magnitude ≤ ulongMax ∧ ∃ m, field.store d.unsigned = some m) ↔ field.Wraps d.value := by
  have hread := d.value_unsigned
  cases field <;>
    simp only [IntegerField.limit, IntegerField.store, IntegerField.Wraps, ulongMax] at hout ⊢
  case blockSzx state =>
    simp only [Option.ite_none_left_eq_some, Option.some.injEq, exists_and_left, exists_eq',
      and_true]
    omega
  all_goals
    simp only [Option.some.injEq, exists_eq', and_true]
    omega

theorem out_of_wraps {field : IntegerField} {z : ℤ} (h : field.Wraps z) :
    z < 0 ∨ (field.limit : ℤ) ≤ z := by
  cases field <;> simp only [IntegerField.limit, IntegerField.Wraps] at h ⊢ <;> omega

section
variable {D : Type} [CDouble D] [CStrtod D] {field : IntegerField} {key value : Bytes}

/-- What is stored has been read for an integer that the text denotes. -/
theorem text_of_applyKey (hkey : keyAddress key = .ok (some field.slot))
    {config config' : AdaptiveConfig D} (h : applyKey config key value = .ok (some config')) :
    ∃ d : DecimalText, d.text = value ∧ d.magnitude ≤ ulongMax ∧
      field.store d.unsigned = some (field.number config') := by
  obtain ⟨n, hparse, hstore⟩ := (number_of_applyKey hkey config _).mp ⟨config', h, rfl⟩
  obtain ⟨d, rfl⟩ := exists_text_of_parseUnsigned hparse
  rw [parseUnsigned_text] at hparse
  split at hparse
  · cases hparse
  · rename_i hmagnitude
    cases hparse
    exact ⟨d, rfl, not_lt.mp hmagnitude, hstore⟩

theorem accepted_of_wraps (hkey : keyAddress key = .ok (some field.slot)) {z : ℤ}
    (hz : DenotesInteger value z) (hwraps : field.Wraps z) (config : AdaptiveConfig D) :
    ∃ config', applyKey config key value = .ok (some config') := by
  obtain ⟨d, rfl, rfl⟩ := hz
  obtain ⟨hmagnitude, m, hstore⟩ := (store_iff_wraps (out_of_wraps hwraps)).mpr hwraps
  have hparse : parseUnsigned d.text = .ok d.unsigned := by
    rw [parseUnsigned_text, if_neg (not_lt.mpr hmagnitude)]
  obtain ⟨config', haccepted, -⟩ := (number_of_applyKey hkey config m).mpr ⟨_, hparse, hstore⟩
  exact ⟨config', haccepted⟩

/-- A setting means what its text says exactly where that denotes no integer that wraps. -/
theorem meansWhatItSays_iff (hkey : keyAddress key = .ok (some field.slot)) :
    MeansWhatItSays D field key value ↔ ∀ z, DenotesInteger value z → ¬field.Wraps z := by
  constructor
  · intro hmeans z hz hwraps
    obtain ⟨config', haccepted⟩ := accepted_of_wraps (D := D) hkey hz hwraps configDefaults
    exact hmeans.refused z hz (out_of_wraps hwraps) _ _ haccepted
  · intro hnot
    constructor
    · intro config config' haccepted
      obtain ⟨d, rfl, hmagnitude, hstore⟩ := text_of_applyKey hkey haccepted
      have hmem : ¬(d.value < 0 ∨ (field.limit : ℤ) ≤ d.value) := fun hout =>
        hnot _ ⟨d, rfl, rfl⟩ ((store_iff_wraps hout).mp ⟨hmagnitude, _, hstore⟩)
      rw [not_or, not_lt, not_le] at hmem
      obtain ⟨-, m, hm, hvalue⟩ := store_of_mem hmem.1 hmem.2
      rw [hstore] at hm
      cases hm
      exact ⟨d, rfl, hvalue.symm⟩
    · intro z hz hout config config' haccepted
      obtain ⟨d, htext, hmagnitude, hstore⟩ := text_of_applyKey hkey haccepted
      rw [hz.unique ⟨d, htext, rfl⟩] at hout
      exact hnot _ ⟨d, htext, rfl⟩ ((store_iff_wraps hout).mp ⟨hmagnitude, _, hstore⟩)

end

theorem meansWhatItSays_levels :
    MeansWhatItSays ℚ .waveletLevels (ascii "wavelet.levels") (ascii "+3") := by
  have hkey : keyAddress (ascii "wavelet.levels") =
      .ok (some IntegerField.waveletLevels.slot) := by decide +kernel
  refine (meansWhatItSays_iff hkey).mpr fun z hz => ?_
  have hthree : DenotesInteger (ascii "+3") 3 :=
    ⟨⟨[], .plus, [0x33], [], List.forall_mem_nil _, List.all_eq_true.mp (by decide), by decide,
      List.forall_mem_nil _⟩, by decide, by decide⟩
  rw [hz.unique hthree]
  decide

/-- 2 ^ 32 + 3 levels are taken for three, and the block size exponent 1 - 2 ^ 64 for one. -/
theorem wrapped_settings :
    (∃ config', applyKey (configDefaults : AdaptiveConfig ℚ) (ascii "wavelet.levels")
        (ascii "4294967299") = .ok (some config') ∧
      IntegerField.waveletLevels.number config' = 3) ∧
    ¬MeansWhatItSays ℚ .waveletLevels (ascii "wavelet.levels") (ascii "4294967299") ∧
    ¬MeansWhatItSays ℚ (.blockSzx .good) (ascii "policy.block_szx.GOOD")
      (ascii "-18446744073709551615") := by
  have hlevels : keyAddress (ascii "wavelet.levels") =
      .ok (some IntegerField.waveletLevels.slot) := by decide +kernel
  have hszx : keyAddress (ascii "policy.block_szx.GOOD") =
      .ok (some (IntegerField.blockSzx .good).slot) := by decide +kernel
  have hlarge : DenotesInteger (ascii "4294967299") 4294967299 :=
    ⟨⟨[], .none, ascii "4294967299", [], List.forall_mem_nil _,
      List.all_eq_true.mp (by decide), by decide, List.forall_mem_nil _⟩, by decide,
      by decide +kernel⟩
  have hnegative : DenotesInteger (ascii "-18446744073709551615") (-18446744073709551615) :=
    ⟨⟨[], .minus, ascii "18446744073709551615", [], List.forall_mem_nil _,
      List.all_eq_true.mp (by decide), by decide, List.forall_mem_nil _⟩, by decide,
      by decide +kernel⟩
  refine ⟨?_, fun hmeans => ?_, fun hmeans => ?_⟩
  · exact (number_of_applyKey hlevels configDefaults 3).mpr ⟨4294967299, by decide +kernel, rfl⟩
  · obtain ⟨config', haccepted⟩ := accepted_of_wraps (D := ℚ) hlevels hlarge (by decide)
      configDefaults
    exact hmeans.refused _ hlarge (by decide) _ _ haccepted
  · obtain ⟨config', haccepted⟩ := accepted_of_wraps (D := ℚ) hszx hnegative (by decide)
      configDefaults
    exact hmeans.refused _ hnegative (by decide) _ _ haccepted

end AdaptiveLowpan
