import AdaptiveLowpan.CStrings

/-! # Texts of integers

What `strtoul` makes of the text of an integer. The number itself is read only where it is not
negative: from -1 on downwards the range of an `unsigned long` is added to it. -/

namespace AdaptiveLowpan
open ByteWords

inductive Sign where
  | none | plus | minus
  deriving DecidableEq

def Sign.text : Sign → Bytes
  | none => []
  | plus => [0x2b]
  | minus => [0x2d]

/-- A decimal integer, with a sign or without, and with white space around it. -/
structure DecimalText where
  before : Bytes
  sign : Sign
  digits : Bytes
  after : Bytes
  before_space : ∀ c ∈ before, isSpace c
  digits_digit : ∀ c ∈ digits, isDigit c
  digits_ne : digits ≠ []
  after_space : ∀ c ∈ after, isSpace c

namespace DecimalText

def text (d : DecimalText) : Bytes := d.before ++ (d.sign.text ++ (d.digits ++ d.after))

def magnitude (d : DecimalText) : ℕ := digitsValue 10 d.digits

def value (d : DecimalText) : ℤ := if d.sign = .minus then -d.magnitude else d.magnitude

end DecimalText

/-- A text denotes an integer. -/
def DenotesInteger (text : Bytes) (z : ℤ) : Prop := ∃ d : DecimalText, d.text = text ∧ d.value = z

/-! ## Scanning -/

theorem bounds_of_isDigit {c : UInt8} (h : isDigit c) : 0x30 ≤ c ∧ c ≤ 0x39 := by
  simpa [isDigit] using h

theorem isSpace_of_isDigit {c : UInt8} (h : isDigit c) : isSpace c = false := by
  obtain ⟨hlow, hhigh⟩ := bounds_of_isDigit h
  rw [isSpace, decide_eq_false_iff_not]
  simp only [UInt8.le_iff_toNat_le, ← UInt8.toNat_inj, UInt8.toNat_ofNat] at hlow hhigh ⊢
  omega

theorem isDigit_of_isSpace {c : UInt8} (h : isSpace c) : isDigit c = false := by
  by_contra hnot
  rw [isSpace_of_isDigit (Bool.eq_true_of_not_eq_false hnot)] at h
  cases h

theorem scan_after {after : Bytes} (h : ∀ c ∈ after, isSpace c) :
    after.takeWhile isDigit = [] ∧ after.dropWhile isDigit = after := by
  cases after with
  | nil => exact ⟨rfl, rfl⟩
  | cons c after =>
    have hc : ¬isDigit c = true := by simp [isDigit_of_isSpace (h c List.mem_cons_self)]
    exact ⟨List.takeWhile_cons_of_neg hc, List.dropWhile_cons_of_neg hc⟩

namespace DecimalText

variable (d : DecimalText)

theorem exists_digit : ∃ c digits, d.digits = c :: digits ∧ isDigit c := by
  obtain ⟨c, digits, hdigits⟩ := List.exists_cons_of_ne_nil d.digits_ne
  exact ⟨c, digits, hdigits, d.digits_digit c (hdigits ▸ List.mem_cons_self)⟩

/-- The white space goes on up to the sign or the first digit. -/
theorem dropWhile_text : d.text.dropWhile isSpace = d.sign.text ++ (d.digits ++ d.after) := by
  obtain ⟨c, digits, hdigits, hc⟩ := d.exists_digit
  rw [text, List.dropWhile_append_of_pos d.before_space, hdigits]
  cases d.sign with
  | none => exact List.dropWhile_cons_of_neg (by simp [isSpace_of_isDigit hc])
  | plus => exact List.dropWhile_cons_of_neg (by decide)
  | minus => exact List.dropWhile_cons_of_neg (by decide)

theorem scanSign_text :
    scanSign (d.text.dropWhile isSpace) = (decide (d.sign = .minus), d.digits ++ d.after) := by
  obtain ⟨c, digits, hdigits, hc⟩ := d.exists_digit
  obtain ⟨hlow, -⟩ := bounds_of_isDigit hc
  have hminus : c ≠ 0x2d := by
    rintro rfl
    exact absurd hlow (by decide)
  have hplus : c ≠ 0x2b := by
    rintro rfl
    exact absurd hlow (by decide)
  rw [dropWhile_text, hdigits]
  cases d.sign with
  | none => simp [Sign.text, scanSign, hminus, hplus]
  | plus => simp [Sign.text, scanSign]
  | minus => simp [Sign.text, scanSign]

theorem takeWhile_digits : (d.digits ++ d.after).takeWhile isDigit = d.digits := by
  rw [List.takeWhile_append_of_pos d.digits_digit, (scan_after d.after_space).1, List.append_nil]

theorem dropWhile_digits : (d.digits ++ d.after).dropWhile isDigit = d.after := by
  rw [List.dropWhile_append_of_pos d.digits_digit, (scan_after d.after_space).2]

theorem strtoul_text : strtoul d.text =
    if d.magnitude > ulongMax then ⟨ulongMax, d.after, true⟩
    else ⟨if d.sign = .minus then (2 ^ 64 - d.magnitude) % 2 ^ 64 else d.magnitude, d.after,
      false⟩ := by
  rw [strtoul, d.scanSign_text]
  simp only [takeWhile_digits, dropWhile_digits, if_neg d.digits_ne, magnitude, decide_eq_true_iff]
  rfl

end DecimalText

/-- A text denotes one integer at most. -/
theorem DenotesInteger.unique {text : Bytes} {z z' : ℤ} (h : DenotesInteger text z)
    (h' : DenotesInteger text z') : z = z' := by
  obtain ⟨d, rfl, rfl⟩ := h
  obtain ⟨d', htext, rfl⟩ := h'
  have hscan := d'.scanSign_text
  rw [htext, d.scanSign_text] at hscan
  obtain ⟨hsign, hbody⟩ := Prod.mk.inj hscan
  have hdigits := d'.takeWhile_digits
  rw [← hbody, d.takeWhile_digits] at hdigits
  rw [decide_eq_decide] at hsign
  simp only [DecimalText.value, DecimalText.magnitude, hdigits, hsign]

/-- The sign that has been scanned. -/
theorem exists_sign (text : Bytes) :
    ∃ sign : Sign, text = sign.text ++ (scanSign text).2 ∧
      (scanSign text).1 = decide (sign = .minus) := by
  cases text with
  | nil => exact ⟨.none, rfl, rfl⟩
  | cons c text =>
    by_cases hminus : c = 0x2d
    · exact ⟨.minus, by simp [scanSign, hminus, Sign.text], by simp [scanSign, hminus]⟩
    by_cases hplus : c = 0x2b
    · exact ⟨.plus, by simp [scanSign, hplus, Sign.text], by simp [scanSign, hplus]⟩
    · exact ⟨.none, by simp [scanSign, hminus, hplus, Sign.text],
        by simp [scanSign, hminus, hplus]⟩

/-- A text of which only white space is left after its digits is one of an integer. -/
theorem exists_decimalText {text : Bytes}
    (hdigits : (scanSign (text.dropWhile isSpace)).2.takeWhile isDigit ≠ [])
    (hafter : ∀ c ∈ (scanSign (text.dropWhile isSpace)).2.dropWhile isDigit, isSpace c) :
    ∃ d : DecimalText, d.text = text := by
  obtain ⟨sign, hsign, -⟩ := exists_sign (text.dropWhile isSpace)
  refine ⟨⟨text.takeWhile isSpace, sign, (scanSign (text.dropWhile isSpace)).2.takeWhile isDigit,
    (scanSign (text.dropWhile isSpace)).2.dropWhile isDigit, fun c => List.mem_takeWhile_imp,
    fun c => List.mem_takeWhile_imp, hdigits, hafter⟩, ?_⟩
  rw [DecimalText.text]
  dsimp only
  rw [List.takeWhile_append_dropWhile, ← hsign, List.takeWhile_append_dropWhile]

theorem exists_decimalText_of_strtoul {text : Bytes} (hrest : (strtoul text).rest ≠ text)
    (hafter : ∀ c ∈ (strtoul text).rest, isSpace c) : ∃ d : DecimalText, d.text = text := by
  by_cases hdigits : (scanSign (text.dropWhile isSpace)).2.takeWhile isDigit = []
  · refine absurd ?_ hrest
    rw [strtoul]
    simp only [hdigits, if_true]
  · refine exists_decimalText hdigits ?_
    rw [strtoul] at hafter
    simp only [if_neg hdigits] at hafter
    split at hafter
    · exact hafter
    · exact hafter

end AdaptiveLowpan
