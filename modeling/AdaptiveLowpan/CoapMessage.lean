import AdaptiveLowpan.ByteWords

/-! # The CoAP message format

A message is a four-byte header, a token, a sequence of delta-numbered options and
an optional payload behind a `0xff` marker. The types below can only hold
well-formed options; `Message.bytes` is the byte string that a message denotes. -/

namespace AdaptiveLowpan.CoapMessage
open ByteWords

/-- A number in the nibble-and-extension form of option deltas and lengths. -/
inductive Extended where
  | direct (n : ℕ) (h : n < 13)
  | byte (low : UInt8)
  | word (high low : UInt8)

namespace Extended

def nibble : Extended → UInt8
  | direct n _ => UInt8.ofNat n
  | byte _ => 13
  | word _ _ => 14

def bytes : Extended → Bytes
  | direct _ _ => []
  | byte low => [low]
  | word high low => [high, low]

def value : Extended → ℕ
  | direct n _ => n
  | byte low => 13 + low.toNat
  | word high low => 269 + high.toNat * 256 + low.toNat

theorem nibble_le (e : Extended) : e.nibble.toNat ≤ 14 := by
  cases e with
  | direct n h =>
    have hn : (UInt8.ofNat n).toNat = n := by rw [UInt8.toNat_ofNat']; omega
    simp only [nibble, hn]
    omega
  | byte low => simp [nibble]
  | word high low => simp [nibble]

theorem value_le (e : Extended) : e.value ≤ 65804 := by
  cases e with
  | direct n h => simp only [value]; omega
  | byte low =>
    have := low.toNat_lt
    simp only [value]
    omega
  | word high low =>
    have := high.toNat_lt
    have := low.toNat_lt
    simp only [value]
    omega

/-- The form of a number that the format can carry. -/
def ofNat (n : ℕ) : Extended :=
  if h : n < 13 then direct n h
  else if n < 269 then byte (UInt8.ofNat (n - 13))
  else word (UInt8.ofNat ((n - 269) / 256)) (UInt8.ofNat (n - 269))

theorem value_ofNat {n : ℕ} (h : n ≤ 65804) : (ofNat n).value = n := by
  unfold ofNat
  split
  · rfl
  · split
    · simp only [value, UInt8.toNat_ofNat']
      omega
    · simp only [value, UInt8.toNat_ofNat']
      omega

end Extended

structure RawOption where
  delta : Extended
  length : Extended
  value : Bytes
  value_length : value.length = length.value

namespace RawOption

def header (o : RawOption) : UInt8 := (o.delta.nibble <<< 4) ||| o.length.nibble

def bytes (o : RawOption) : Bytes :=
  o.header :: (o.delta.bytes ++ (o.length.bytes ++ o.value))

theorem toNat_header (o : RawOption) :
    o.header.toNat = o.delta.nibble.toNat * 16 + o.length.nibble.toNat := by
  have hd := o.delta.nibble_le
  have hl := o.length.nibble_le
  exact toNat_packNibbles (by omega) (by omega)

theorem header_ne_marker (o : RawOption) : o.header ≠ 0xff := by
  intro h
  have hn := congrArg UInt8.toNat h
  have hd := o.delta.nibble_le
  have hl := o.length.nibble_le
  rw [toNat_header] at hn
  change _ = 255 at hn
  omega

@[simp] theorem highNibble_header (o : RawOption) : o.header >>> 4 = o.delta.nibble := by
  apply UInt8.toNat_inj.mp
  have hl := o.length.nibble_le
  rw [toNat_highNibble, toNat_header]
  omega

@[simp] theorem lowNibble_header (o : RawOption) : o.header &&& 0x0f = o.length.nibble := by
  apply UInt8.toNat_inj.mp
  have hl := o.length.nibble_le
  rw [toNat_lowNibble, toNat_header]
  omega

end RawOption

def optionStream (options : List RawOption) : Bytes := options.flatMap RawOption.bytes

def numbered : ℕ → List RawOption → List (ℕ × Bytes)
  | _, [] => []
  | number, o :: options =>
    (number + o.delta.value, o.value) :: numbered (number + o.delta.value) options

def lastNumber : ℕ → List RawOption → ℕ
  | number, [] => number
  | number, o :: options => lastNumber (number + o.delta.value) options

@[simp] theorem optionStream_nil : optionStream [] = [] := rfl

@[simp] theorem optionStream_cons (o : RawOption) (options : List RawOption) :
    optionStream (o :: options) = o.bytes ++ optionStream options := rfl

@[simp] theorem optionStream_append (options options' : List RawOption) :
    optionStream (options ++ options') = optionStream options ++ optionStream options' := by
  simp [optionStream]

theorem numbered_append (number : ℕ) (options options' : List RawOption) :
    numbered number (options ++ options') =
      numbered number options ++ numbered (lastNumber number options) options' := by
  induction options generalizing number with
  | nil => rfl
  | cons o options ih => simp [numbered, lastNumber, ih]

def payloadTrailer (payload : Bytes) : Bytes := if payload = [] then [] else 0xff :: payload

/-- A message; an empty payload stands for a message without the marker. -/
structure Message where
  first : UInt8
  code : UInt8
  idHigh : UInt8
  idLow : UInt8
  token : Bytes
  options : List RawOption
  payload : Bytes

def Message.bytes (m : Message) : Bytes :=
  m.first :: m.code :: m.idHigh :: m.idLow ::
    (m.token ++ (optionStream m.options ++ payloadTrailer m.payload))

/-- Version 1, a token of the announced length, at most eight bytes, and option
numbers within `bound`. -/
structure Message.WellFormed (bound : ℕ) (m : Message) : Prop where
  version : m.first >>> 6 = 1
  token_length : m.token.length = (m.first &&& 0x0f).toNat
  token_le : m.token.length ≤ 8
  numbers_le : ∀ o ∈ numbered 0 m.options, o.1 ≤ bound

/-! ## One message for a byte string -/

theorem Extended.eq_of_nibble {e e' : Extended} {rest rest' : Bytes} (hnibble : e.nibble = e'.nibble)
    (h : e.bytes ++ rest = e'.bytes ++ rest') : e = e' ∧ rest = rest' := by
  have hsmall (n : ℕ) (hn : n < 13) : (UInt8.ofNat n).toNat = n := by
    rw [UInt8.toNat_ofNat']
    omega
  have hnat := congrArg UInt8.toNat hnibble
  cases e with
  | direct n hn =>
    simp only [nibble, hsmall n hn] at hnat
    cases e' with
    | direct n' hn' =>
      rw [hsmall n' hn'] at hnat
      subst hnat
      exact ⟨rfl, h⟩
    | byte low => exact absurd hnat (by change n ≠ 13; omega)
    | word high low => exact absurd hnat (by change n ≠ 14; omega)
  | byte low =>
    cases e' with
    | direct n' hn' =>
      simp only [nibble, hsmall n' hn'] at hnat
      exact absurd hnat (by change 13 ≠ n'; omega)
    | byte low' =>
      cases h
      exact ⟨rfl, rfl⟩
    | word high low => exact absurd hnat (by change 13 ≠ 14; decide)
  | word high low =>
    cases e' with
    | direct n' hn' =>
      simp only [nibble, hsmall n' hn'] at hnat
      exact absurd hnat (by change 14 ≠ n'; omega)
    | byte low => exact absurd hnat (by change 14 ≠ 13; decide)
    | word high' low' =>
      cases h
      exact ⟨rfl, rfl⟩

theorem RawOption.eq_of_bytes {o o' : RawOption} {rest rest' : Bytes}
    (h : o.bytes ++ rest = o'.bytes ++ rest') : o = o' ∧ rest = rest' := by
  simp only [bytes, List.cons_append, List.append_assoc, List.cons.injEq] at h
  obtain ⟨hheader, h⟩ := h
  have hhigh := congrArg (fun header : UInt8 => header >>> 4) hheader
  have hlow := congrArg (fun header : UInt8 => header &&& 0x0f) hheader
  simp only [highNibble_header, lowNibble_header] at hhigh hlow
  obtain ⟨hdelta, h⟩ := Extended.eq_of_nibble hhigh h
  obtain ⟨hlength, h⟩ := Extended.eq_of_nibble hlow h
  have hvalue : o.value.length = o'.value.length := by
    rw [o.value_length, o'.value_length, hlength]
  obtain ⟨hvalue, hrest⟩ := List.append_inj h hvalue
  obtain ⟨delta, length, value, _⟩ := o
  obtain ⟨delta', length', value', _⟩ := o'
  obtain rfl : delta = delta' := hdelta
  obtain rfl : length = length' := hlength
  obtain rfl : value = value' := hvalue
  exact ⟨rfl, hrest⟩

theorem payloadTrailer_inj {payload payload' : Bytes}
    (h : payloadTrailer payload = payloadTrailer payload') : payload = payload' := by
  unfold payloadTrailer at h
  split at h <;> split at h <;> simp_all

theorem bytes_ne_payloadTrailer (o : RawOption) (rest payload : Bytes) :
    payloadTrailer payload ≠ o.bytes ++ rest := by
  unfold payloadTrailer
  split
  · simp [RawOption.bytes]
  · intro h
    simp only [RawOption.bytes, List.cons_append, List.cons.injEq] at h
    exact o.header_ne_marker h.1.symm

theorem optionStream_inj {options options' : List RawOption} {payload payload' : Bytes}
    (h : optionStream options ++ payloadTrailer payload =
      optionStream options' ++ payloadTrailer payload') :
    options = options' ∧ payload = payload' := by
  induction options generalizing options' with
  | nil =>
    cases options' with
    | nil => exact ⟨rfl, payloadTrailer_inj h⟩
    | cons o' options' =>
      rw [optionStream_cons, List.append_assoc] at h
      exact absurd h (bytes_ne_payloadTrailer o' _ payload)
  | cons o options ih =>
    cases options' with
    | nil =>
      rw [optionStream_cons, List.append_assoc] at h
      exact absurd h.symm (bytes_ne_payloadTrailer o _ payload')
    | cons o' options' =>
      rw [optionStream_cons, optionStream_cons, List.append_assoc, List.append_assoc] at h
      obtain ⟨rfl, hrest⟩ := RawOption.eq_of_bytes h
      obtain ⟨rfl, rfl⟩ := ih hrest
      exact ⟨rfl, rfl⟩

/-- A byte string is the bytes of at most one well-formed message. -/
theorem Message.eq_of_bytes {bound : ℕ} {m m' : Message} (hm : m.WellFormed bound)
    (hm' : m'.WellFormed bound) (h : m.bytes = m'.bytes) : m = m' := by
  simp only [bytes, List.cons.injEq] at h
  obtain ⟨hfirst, hcode, hhigh, hlow, h⟩ := h
  have htoken : m.token.length = m'.token.length := by
    rw [hm.token_length, hm'.token_length, hfirst]
  obtain ⟨htoken, h⟩ := List.append_inj h htoken
  obtain ⟨hoptions, hpayload⟩ := optionStream_inj h
  cases m
  cases m'
  simp_all

def lastValue (number : ℕ) (options : List (ℕ × Bytes)) : ℕ :=
  ((options.reverse.find? (·.1 = number)).map (wordValue ·.2)).getD 0

@[simp] theorem lastValue_nil (number : ℕ) : lastValue number [] = 0 := rfl

theorem lastValue_concat (number : ℕ) (options : List (ℕ × Bytes)) (o : ℕ × Bytes) :
    lastValue number (options ++ [o]) =
      if o.1 = number then wordValue o.2 else lastValue number options := by
  unfold lastValue
  rw [List.reverse_append, List.reverse_singleton, List.singleton_append, List.find?_cons]
  by_cases h : o.1 = number <;> simp [h]

end AdaptiveLowpan.CoapMessage
