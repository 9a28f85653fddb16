import AdaptiveLowpan.ByteWords
import AdaptiveLowpan.RationalArithmetic
import AdaptiveLowpan.TextLines

/-! # Strings and the conversions of the C library

A string is the bytes before its terminating zero. The functions of the C library are those
of the "C" locale. -/

namespace AdaptiveLowpan
open ByteWords

def ascii (s : String) : Bytes := s.toList.map fun c => UInt8.ofNat c.toNat

def cString (buffer : Bytes) : Bytes := buffer.takeWhile (· ≠ 0)

def isSpace (c : UInt8) : Bool := c = 0x20 ∨ (0x09 ≤ c ∧ c ≤ 0x0d)

def isDigit (c : UInt8) : Bool := 0x30 ≤ c ∧ c ≤ 0x39

def toLower (c : UInt8) : UInt8 := if 0x41 ≤ c ∧ c ≤ 0x5a then c + 0x20 else c

def hexDigit? (c : UInt8) : Option ℕ :=
  if isDigit c then some (c.toNat - 0x30)
  else if 0x61 ≤ toLower c ∧ toLower c ≤ 0x66 then some (toLower c - 0x61 + 10).toNat
  else none

/-- The string `text` with its letters in lower case starts with `name`. -/
def startsWithName (name text : Bytes) : Bool := name.isPrefixOf (text.map toLower)

/-- `fgets` reads up to one byte less than the size of the buffer. -/
def fgets (size : ℕ) (file : Bytes) : Bytes × Bytes := TextLines.readLine 0x0a (size - 1) file

/-- What the calls of `fgets` read until one of them finds the end of the file. -/
def fgetsAll (size : ℕ) (file : Bytes) : List Bytes := TextLines.readAll 0x0a (size - 1) file

/-! ## Numbers -/

/-- What a conversion returns: the number, the rest of the string from `end` on, and
whether it sets `errno`. -/
structure Conversion (α : Type) where
  value : α
  rest : Bytes
  errno : Bool

def scanSign : Bytes → Bool × Bytes
  | [] => (false, [])
  | c :: text => if c = 0x2d then (true, text) else if c = 0x2b then (false, text) else (false, c :: text)

def digitsValue (base : ℕ) (digits : Bytes) : ℕ :=
  digits.foldl (fun acc c => acc * base + (hexDigit? c).getD 0) 0

/-- `ULONG_MAX`, with a 64-bit `unsigned long`. -/
abbrev ulongMax : ℕ := 2 ^ 64 - 1

/-- `strtoul` with base 10. A minus sign negates the number as an `unsigned long`. -/
def strtoul (text : Bytes) : Conversion ℕ :=
  let (negative, body) := scanSign (text.dropWhile isSpace)
  let digits := body.takeWhile isDigit
  if digits = [] then ⟨0, text, false⟩
  else
    let value := digitsValue 10 digits
    if value > ulongMax then ⟨ulongMax, body.dropWhile isDigit, true⟩
    else ⟨if negative then (2 ^ 64 - value) % 2 ^ 64 else value, body.dropWhile isDigit, false⟩

inductive Numeral where
  | finite (significand base : ℕ) (exponent : ℤ)
  | infinity
  | nan

/-- Digits with an optional point: those before it, those after it, and what follows. -/
def scanSignificand (digit : UInt8 → Bool) (text : Bytes) : Option (Bytes × Bytes × Bytes) :=
  let whole := text.takeWhile digit
  match text.dropWhile digit with
  | [] => if whole = [] then none else some (whole, [], [])
  | c :: rest =>
    let fraction := if c = 0x2e then rest.takeWhile digit else []
    if whole = [] ∧ fraction = [] then none
    else if c = 0x2e then some (whole, fraction, rest.dropWhile digit)
    else some (whole, [], c :: rest)

def scanExponent (mark : UInt8) : Bytes → ℤ × Bytes
  | [] => (0, [])
  | c :: text =>
    let (negative, body) := scanSign text
    let digits := body.takeWhile isDigit
    if toLower c ≠ mark ∨ digits = [] then (0, c :: text)
    else
      let value : ℤ := digitsValue 10 digits
      (if negative then -value else value, body.dropWhile isDigit)

/-- A number in the digits of a base, with an exponent that counts in powers of another. -/
def scanNumeral (digit : UInt8 → Bool) (base power width : ℕ) (mark : UInt8) (text : Bytes) :
    Option (Numeral × Bytes) :=
  (scanSignificand digit text).map fun (whole, fraction, rest) =>
    let (exponent, rest) := scanExponent mark rest
    (.finite (digitsValue base (whole ++ fraction)) power (exponent - width * fraction.length), rest)

def scanDecimal (text : Bytes) : Option (Numeral × Bytes) := scanNumeral isDigit 10 10 1 0x65 text

def scanHexadecimal (text : Bytes) : Option (Numeral × Bytes) :=
  if startsWithName (ascii "0x") text then
    scanNumeral (fun c => (hexDigit? c).isSome) 16 2 4 0x70 (text.drop 2)
  else none

/-- `inf`, `infinity` and `nan`, the last with any letters and digits in parentheses. -/
def scanNonFinite (text : Bytes) : Option (Numeral × Bytes) :=
  if startsWithName (ascii "infinity") text then some (.infinity, text.drop 8)
  else if startsWithName (ascii "inf") text then some (.infinity, text.drop 3)
  else if startsWithName (ascii "nan") text then
    let rest := text.drop 3
    let body := (rest.drop 1).dropWhile fun c =>
      isDigit c || (0x61 ≤ toLower c && toLower c ≤ 0x7a) || c = 0x5f
    if rest.head? = some 0x28 ∧ body.head? = some 0x29 then some (.nan, body.drop 1)
    else some (.nan, rest)
  else none

/-- The number nearest to what `strtod` has read, with a minus sign or without, and
whether that is out of range. -/
class CStrtod (D : Type) where
  convert : Bool → Numeral → D × Bool

def strtod {D : Type} [CDouble D] [CStrtod D] (text : Bytes) : Conversion D :=
  let (negative, body) := scanSign (text.dropWhile isSpace)
  match scanHexadecimal body <|> scanDecimal body <|> scanNonFinite body with
  | none => ⟨CDouble.lit 0, text, false⟩
  | some (numeral, rest) =>
    let (value, errno) := CStrtod.convert negative numeral
    ⟨value, rest, errno⟩

instance : CStrtod ℚ where
  convert
    | negative, .finite significand base exponent =>
      let magnitude : ℚ :=
        if 0 ≤ exponent then significand * base ^ exponent.toNat
        else significand / base ^ (-exponent).toNat
      (if negative then -magnitude else magnitude, false)
    | _, _ => (0, true)

example : (strtod (ascii "-1.25e2 #") : Conversion ℚ).value = -125 := by decide +kernel

end AdaptiveLowpan
