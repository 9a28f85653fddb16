import AdaptiveLowpan.CoapCapacity
import Mathlib.Data.Nat.Digits.Defs

/-! # The serialisation that the builder writes

A request is serialised from its numbered options: each one carries the difference to
the number before it. The builder writes exactly this string when it fits. Every append
is checked against the capacity, and appends that are checked one after the other are
one append of everything. -/

namespace AdaptiveLowpan
open ByteWords CheckedMemory CoapMessage

/-! ## The format -/

namespace CoapMessage

def optionBytes (delta : ℕ) (value : Bytes) : Bytes :=
  (((Extended.ofNat delta).nibble <<< 4) ||| (Extended.ofNat value.length).nibble) ::
    ((Extended.ofNat delta).bytes ++ ((Extended.ofNat value.length).bytes ++ value))

/-- Numbered options, behind the option numbered `previous`. -/
def deltaEncode : ℕ → List (ℕ × Bytes) → Bytes
  | _, [] => []
  | previous, (number, value) :: options =>
    optionBytes (number - previous) value ++ deltaEncode number options

def lastOption : ℕ → List (ℕ × Bytes) → ℕ
  | previous, [] => previous
  | _, (number, _) :: options => lastOption number options

/-- An integer in network byte order, without leading zero bytes. -/
def uintBytes (v : ℕ) : Bytes := (Nat.digits 256 v).reverse.map UInt8.ofNat

theorem deltaEncode_append (previous : ℕ) (options options' : List (ℕ × Bytes)) :
    deltaEncode previous (options ++ options') =
      deltaEncode previous options ++ deltaEncode (lastOption previous options) options' := by
  induction options generalizing previous with
  | nil => rfl
  | cons o options ih =>
    rw [List.cons_append, deltaEncode, deltaEncode, ih, lastOption, List.append_assoc]

@[simp] theorem uintBytes_zero : uintBytes 0 = [] := by
  simp [uintBytes]

theorem uintBytes_pos {v : ℕ} (h : 0 < v) :
    uintBytes v = uintBytes (v / 256) ++ [UInt8.ofNat v] := by
  have hmod : UInt8.ofNat (v % 256) = UInt8.ofNat v := by
    apply UInt8.toNat_inj.mp
    rw [UInt8.toNat_ofNat', UInt8.toNat_ofNat']
    omega
  rw [uintBytes, Nat.digits_def' (by decide) h, List.reverse_cons, List.map_append,
    List.map_singleton, hmod]
  rfl

end CoapMessage

/-- The segments of a path: what stands between its slashes, if anything. -/
def pathSegments (path : Bytes) : List Bytes := (path.splitOn slash).filter (· ≠ [])

def requestOptions (block : CoapBlock) (path : Bytes) : List (ℕ × Bytes) :=
  (pathSegments path).map (11, ·) ++
    ([(12, uintBytes block.contentFormat.toNat),
      (27, uintBytes (block.blockNumber.toNat * 16 + (if block.more ≠ 0 then 8 else 0) +
        block.szx.toNat))] ++
    if block.size1 > 0 then [(60, uintBytes block.size1.toNat)] else [])

/-- The bytes of a request: header, token, options, and the payload behind its marker. -/
def requestBytes (block : CoapBlock) (path : Bytes) : Bytes :=
  [UInt8.ofNat (64 + 16 * block.type.toNat + block.token.length), block.code,
    UInt8.ofNat (block.messageId.toNat / 256), UInt8.ofNat block.messageId.toNat] ++
    (block.token ++ (deltaEncode 0 (requestOptions block path) ++ payloadTrailer block.payload))

/-! ## Appending what fits -/

def appendFitting (capacity : ℕ) (out xs : Bytes) : Outcome Bytes :=
  if out.length + xs.length ≤ capacity then .ok (out ++ xs) else fail .capacity

theorem appendFitting_nil {capacity : ℕ} {out : Bytes} (h : out.length ≤ capacity) :
    appendFitting capacity out [] = .ok out := by
  rw [appendFitting, List.length_nil, Nat.add_zero, if_pos h, List.append_nil]

theorem appendFitting_bind {capacity : ℕ} {out s t : Bytes} {f : Bytes → Outcome Bytes}
    (hf : ∀ out, out.length ≤ capacity → f out = appendFitting capacity out t) :
    (appendFitting capacity out s >>= f) = appendFitting capacity out (s ++ t) := by
  simp only [appendFitting, List.length_append] at hf ⊢
  by_cases hfirst : out.length + s.length ≤ capacity
  · rw [if_pos hfirst, ok_bind, hf _ (by rw [List.length_append]; exact hfirst),
      List.length_append, Nat.add_assoc, List.append_assoc]
  · rw [if_neg hfirst, fail_bind, if_neg (by omega)]

theorem map_bind {α β γ : Type} (x : Outcome α) (f : α → β) (g : β → Outcome γ) :
    (x.map f >>= g) = x >>= fun a => g (f a) := by
  cases x <;> rfl

theorem appendOption_fitting (capacity : ℕ) (out : Bytes) {delta : ℕ} {value : Bytes}
    (hd : delta ≤ 65804) (hv : value.length ≤ 65804) :
    appendOption capacity out delta value =
      appendFitting capacity out (optionBytes delta value) :=
  appendOption_of_le hd hv

/-! ## Integers -/

theorem encodeUint_eq (v : UInt32) : encodeUint v = uintBytes v.toNat := by
  have hv := v.toNat_lt
  have h1 : (v ≤ 0xff) = (v.toNat ≤ 255) := propext UInt32.le_iff_toNat_le
  have h2 : (v ≤ 0xffff) = (v.toNat ≤ 65535) := propext UInt32.le_iff_toNat_le
  have h3 : (v ≤ 0xffffff) = (v.toNat ≤ 16777215) := propext UInt32.le_iff_toNat_le
  have b0 := toUInt8_shiftRight v (k := 0) (by omega)
  have b8 := toUInt8_shiftRight v (k := 8) (by omega)
  have b16 := toUInt8_shiftRight v (k := 16) (by omega)
  have b24 := toUInt8_shiftRight v (k := 24) (by omega)
  unfold encodeUint
  by_cases h0 : v = 0
  · subst h0
    exact uintBytes_zero.symm
  have hpos : 0 < v.toNat := by
    rw [Nat.pos_iff_ne_zero]
    intro hzero
    exact h0 (UInt32.toNat_inj.mp hzero)
  simp only [h0, h1, h2, h3, if_false]
  rw [uintBytes_pos hpos]
  by_cases hb1 : v.toNat ≤ 255
  · rw [if_pos hb1, Nat.div_eq_of_lt (by omega), uintBytes_zero]
    change [(v >>> UInt32.ofNat 0).toUInt8] = _
    rw [b0, Nat.pow_zero, Nat.div_one]
    rfl
  rw [if_neg hb1, uintBytes_pos (v := v.toNat / 256) (by omega), Nat.div_div_eq_div_mul]
  by_cases hb2 : v.toNat ≤ 65535
  · rw [if_pos hb2, Nat.div_eq_of_lt (by omega), uintBytes_zero]
    change [(v >>> UInt32.ofNat 8).toUInt8, (v >>> UInt32.ofNat 0).toUInt8] = _
    rw [b0, b8, Nat.pow_zero, Nat.div_one]
    rfl
  rw [if_neg hb2, uintBytes_pos (v := v.toNat / (256 * 256)) (by omega), Nat.div_div_eq_div_mul]
  by_cases hb3 : v.toNat ≤ 16777215
  · rw [if_pos hb3, Nat.div_eq_of_lt (by omega), uintBytes_zero]
    change [(v >>> UInt32.ofNat 16).toUInt8, (v >>> UInt32.ofNat 8).toUInt8,
      (v >>> UInt32.ofNat 0).toUInt8] = _
    rw [b0, b8, b16, Nat.pow_zero, Nat.div_one]
    rfl
  · rw [if_neg hb3, uintBytes_pos (v := v.toNat / (256 * 256 * 256)) (by omega),
      Nat.div_div_eq_div_mul, Nat.div_eq_of_lt (by omega), uintBytes_zero]
    change [(v >>> UInt32.ofNat 24).toUInt8, (v >>> UInt32.ofNat 16).toUInt8,
      (v >>> UInt32.ofNat 8).toUInt8, (v >>> UInt32.ofNat 0).toUInt8] = _
    rw [b0, b8, b16, b24, Nat.pow_zero, Nat.div_one]
    rfl

theorem encodeUint_blockValue {block : CoapBlock} (hb : Buildable block) :
    encodeUint (blockValue block) =
      uintBytes (block.blockNumber.toNat * 16 + (if block.more ≠ 0 then 8 else 0) +
        block.szx.toNat) := by
  rw [encodeUint_eq, toNat_blockValue hb.number_le hb.szx_le]

/-! ## The path -/

theorem pathSegments_nil : pathSegments [] = [] := by
  simp [pathSegments]

theorem pathSegments_slash (path : Bytes) : pathSegments (slash :: path) = pathSegments path := by
  have hsplit : (slash :: path).splitOn slash = [] :: path.splitOn slash :=
    List.splitOn_append_cons_self_of_not_mem (List.not_mem_nil (a := slash)) path
  rw [pathSegments, hsplit, List.filter_cons_of_neg (by simp)]
  rfl

theorem pathSegments_skipSlashes (path : Bytes) :
    pathSegments (skipSlashes path) = pathSegments path := by
  induction path with
  | nil => rfl
  | cons c path ih =>
    by_cases hc : c = slash
    · subst hc
      rw [pathSegments_slash, ← ih]
      simp [skipSlashes]
    · have hskip : skipSlashes (c :: path) = c :: path := by simp [skipSlashes, hc]
      rw [hskip]

theorem pathSegments_cons {cursor : Bytes} (hne : cursor ≠ []) (hhead : cursor.head? ≠ some slash) :
    pathSegments cursor = cursor.takeWhile (· != slash) ::
      pathSegments (skipSlashes (cursor.dropWhile (· != slash))) := by
  have hpositive := segment_ne_nil hne hhead
  have hfree : slash ∉ cursor.takeWhile (· != slash) := by
    intro hmem
    have hfalse := List.mem_takeWhile_imp hmem
    simp at hfalse
  have happend := List.takeWhile_append_dropWhile (p := (· != slash)) (l := cursor)
  rw [pathSegments_skipSlashes]
  generalize cursor.takeWhile (· != slash) = segment at hpositive hfree happend ⊢
  have hsegment : segment ≠ [] := List.ne_nil_of_length_pos hpositive
  cases hrest : cursor.dropWhile (· != slash) with
  | nil =>
    rw [hrest, List.append_nil] at happend
    rw [← happend, pathSegments, List.splitOn_eq_singleton hfree,
      List.filter_cons_of_pos (by simpa using hsegment), pathSegments_nil, List.filter_nil]
  | cons c rest =>
    have hdrop : cursor.dropWhile (· != slash) ≠ [] := by simp [hrest]
    have hslash := List.head_dropWhile_not (· != slash) hdrop
    simp only [hrest, List.head_cons] at hslash
    obtain rfl : c = slash := by simpa using hslash
    rw [hrest] at happend
    rw [← happend, pathSegments, List.splitOn_append_cons_self_of_not_mem hfree,
      List.filter_cons_of_pos (by simpa using hsegment), pathSegments_slash]
    rfl

theorem appendSegments_fitting (capacity turns : ℕ) (cursor out : Bytes) (first : Bool)
    (hturns : cursor.length < turns) (hhead : cursor.head? ≠ some slash)
    (hlong : ∀ segment ∈ pathSegments cursor, segment.length ≤ 65804)
    (hout : out.length ≤ capacity) :
    appendSegments capacity turns cursor (pathNumber first) first out =
      (appendFitting capacity out
        (deltaEncode (pathNumber first) ((pathSegments cursor).map (11, ·)))).map
        fun out => (out, pathNumber (first && (pathSegments cursor).isEmpty),
          first && (pathSegments cursor).isEmpty) := by
  induction turns generalizing cursor first out with
  | zero => omega
  | succ turns ih =>
    rw [appendSegments]
    by_cases hnil : cursor = []
    · rw [if_pos hnil, hnil, pathSegments_nil, List.map_nil, deltaEncode, appendFitting_nil hout]
      simp [Except.map]
    have hsegment := segment_ne_nil hnil hhead
    have hsplit := length_takeWhile_add_dropWhile (· != slash) cursor
    rw [pathSegments_cons hnil hhead] at hlong ⊢
    rw [if_neg hnil]
    simp only
    have hrest : (skipSlashes (cursor.dropWhile (· != slash))).length < cursor.length := by
      rcases length_rest cursor with hend | hlt
      · rw [hend, List.length_nil]
        exact List.length_pos_of_ne_nil hnil
      · omega
    rw [if_pos hsegment]
    generalize cursor.takeWhile (· != slash) = segment at hsegment hlong ⊢
    generalize hcursor : skipSlashes (cursor.dropWhile (· != slash)) = rest at hrest hlong ⊢
    have hdelta : (if first = true then 11 - pathNumber first else 0) = 11 - pathNumber first := by
      cases first <;> rfl
    rw [hdelta, appendOption_fitting capacity out (by cases first <;> decide)
      (hlong segment List.mem_cons_self), List.map_cons, deltaEncode,
      ← appendFitting_bind (f := fun out => appendFitting capacity out _) (fun _ _ => rfl)]
    cases happend : appendFitting capacity out (optionBytes (11 - pathNumber first) segment) with
    | error e => rfl
    | ok out' =>
      have hout' : out'.length ≤ capacity := by
        rw [appendFitting] at happend
        split at happend
        · rename_i hfit
          cases happend
          rw [List.length_append]
          exact hfit
        · cases happend
      rw [ok_bind, ok_bind]
      have hnext := ih rest out' false (by omega) (hcursor ▸ head?_skipSlashes _)
        (fun s hs => hlong s (List.mem_cons_of_mem _ hs)) hout'
      simpa [show pathNumber false = 11 from rfl] using hnext

/-- A path with a segment is appended as its options, if they fit. -/
theorem appendUriPath_fitting (capacity : ℕ) {out path : Bytes} (hpath : pathSegments path ≠ [])
    (hlong : ∀ segment ∈ pathSegments path, segment.length ≤ 65804) (hout : out.length ≤ capacity) :
    appendUriPath capacity out path 0 =
      (appendFitting capacity out (deltaEncode 0 ((pathSegments path).map (11, ·)))).map
        fun out => (out, 11) := by
  have hle : (skipSlashes path).length ≤ path.length :=
    (List.dropWhile_sublist (· == slash)).length_le
  have hloop := appendSegments_fitting capacity (path.length + 1) (skipSlashes path) out true
    (by omega) (head?_skipSlashes path) (by rwa [pathSegments_skipSlashes]) hout
  rw [pathSegments_skipSlashes] at hloop
  have hempty : (pathSegments path).isEmpty = false := by simpa using hpath
  rw [hempty, Bool.and_false] at hloop
  rw [appendUriPath]
  change (appendSegments capacity (path.length + 1) (skipSlashes path) (pathNumber true) true out
    >>= _) = Except.map _ (appendFitting capacity out (deltaEncode (pathNumber true) _))
  rw [hloop]
  generalize appendFitting capacity out _ = appended
  cases appended <;> rfl

/-! ## The packet -/

theorem coapHeader_eq {block : CoapBlock} (htype : block.type < 4) (htoken : block.token.length ≤ 8) :
    coapHeader block =
      [UInt8.ofNat (64 + 16 * block.type.toNat + block.token.length), block.code,
        UInt8.ofNat (block.messageId.toNat / 256), UInt8.ofNat block.messageId.toNat] := by
  have hfirst : ∀ t < 4, ∀ n < 9,
      ((0x40 : UInt8) ||| ((UInt8.ofNat t &&& 0x03) <<< 4) ||| UInt8.ofNat n) =
        UInt8.ofNat (64 + 16 * t + n) := by
    decide
  have ht : block.type.toNat < 4 := UInt8.lt_iff_toNat_lt.mp htype
  have hbyte := hfirst block.type.toNat ht block.token.length (Nat.lt_succ_of_le htoken)
  rw [UInt8.ofNat_toNat] at hbyte
  have hhigh : (block.messageId >>> 8).toUInt8 = UInt8.ofNat (block.messageId.toNat / 256) := by
    apply UInt8.toNat_inj.mp
    rw [UInt16.toNat_toUInt8, UInt16.toNat_shiftRight, UInt8.toNat_ofNat',
      Nat.shiftRight_eq_div_pow]
    rfl
  have hlow : block.messageId.toUInt8 = UInt8.ofNat block.messageId.toNat := by
    apply UInt8.toNat_inj.mp
    rw [UInt16.toNat_toUInt8, UInt8.toNat_ofNat']
  rw [coapHeader, hbyte, hhigh, hlow]

/-- The marker and the payload are appended, if they fit. -/
theorem appendPayload_fitting {capacity : ℕ} {out payload : Bytes} (hout : out.length ≤ capacity) :
    (if payload.length > 0 then
      if out.length ≥ capacity ∨ payload.length > capacity - out.length - 1 then fail .capacity
      else do
        let out ← emit capacity out [0xff]
        emit capacity out payload
    else .ok out : Outcome Bytes) = appendFitting capacity out (payloadTrailer payload) := by
  by_cases hnil : payload = []
  · subst hnil
    rw [if_neg (by simp)]
    exact (appendFitting_nil hout).symm
  have hpos : payload.length > 0 := List.length_pos_of_ne_nil hnil
  rw [if_pos hpos, payloadTrailer, if_neg hnil, appendFitting, List.length_cons]
  by_cases hfit : out.length + (payload.length + 1) ≤ capacity
  · rw [if_neg (by omega), if_pos hfit, emit_of_le (by rw [List.length_singleton]; omega), ok_bind,
      emit_of_le (by rw [List.length_append, List.length_singleton]; omega)]
    simp
  · rw [if_pos (by omega), if_neg hfit]

def requestTail (block : CoapBlock) : Bytes :=
  optionBytes 1 (encodeUint block.contentFormat) ++
    (optionBytes 15 (encodeUint (blockValue block)) ++
      ((if block.size1 > 0 then optionBytes 33 (encodeUint block.size1) else []) ++
        payloadTrailer block.payload))

theorem lastOption_segments {segments : List Bytes} (h : segments ≠ []) (previous : ℕ) :
    lastOption previous (segments.map (11, ·)) = 11 := by
  induction segments generalizing previous with
  | nil => exact absurd rfl h
  | cons segment segments ih =>
    rw [List.map_cons, lastOption]
    cases segments with
    | nil => rfl
    | cons segment' segments => exact ih (by simp) 11

theorem requestBytes_eq {block : CoapBlock} {path : Bytes} (hb : Buildable block)
    (htype : block.type < 4) (hpath : pathSegments path ≠ []) :
    requestBytes block path = coapHeader block ++ block.token ++
      (deltaEncode 0 ((pathSegments path).map (11, ·)) ++ requestTail block) := by
  rw [requestBytes, coapHeader_eq htype hb.token_le, requestOptions, deltaEncode_append,
    lastOption_segments hpath, requestTail, encodeUint_blockValue hb, encodeUint_eq, encodeUint_eq]
  by_cases hsize : block.size1 > 0
  · simp [deltaEncode, hsize]
  · simp [deltaEncode, hsize]

/-- The builder writes the bytes of the request when they fit, and stops otherwise. -/
theorem coapBuildBlock1_eq {block : CoapBlock} {path : Bytes} (hb : Buildable block)
    (htype : block.type < 4) (hpath : pathSegments path ≠ [])
    (hlong : ∀ segment ∈ pathSegments path, segment.length ≤ 65804) (capacity : ℕ) :
    coapBuildBlock1 block path capacity =
      if capacity < 4 + block.token.length then fail .argument
      else if (requestBytes block path).length ≤ capacity then .ok (requestBytes block path)
      else fail .capacity := by
  have hargs : (block.token.length > 8 ∨ block.szx > 6 ∨ block.blockNumber > 0xfffff ∨
      capacity < 4 + block.token.length) ↔ capacity < 4 + block.token.length := by
    have h1 := hb.token_le
    have h2 : ¬block.szx > 6 := UInt8.not_lt.mpr hb.szx_le
    have h3 : ¬block.blockNumber > 0xfffff := UInt32.not_lt.mpr hb.number_le
    simp only [h2, h3, false_or]
    omega
  have hlength : (coapHeader block).length = 4 := rfl
  have hshort (v : UInt32) : (encodeUint v).length ≤ 65804 :=
    (length_encodeUint_le v).trans (by decide)
  rw [coapBuildBlock1, if_congr hargs rfl rfl]
  by_cases hcapacity : capacity < 4 + block.token.length
  · rw [if_pos hcapacity, if_pos hcapacity]
  rw [if_neg hcapacity, if_neg hcapacity, emit_of_le (by rw [List.length_nil]; omega), ok_bind,
    List.nil_append, emit_of_le (by omega), ok_bind,
    appendUriPath_fitting capacity hpath hlong (by rw [List.length_append]; omega), map_bind,
    requestBytes_eq hb htype hpath]
  simp only
  rw [appendFitting_bind (t := requestTail block)]
  · simp only [appendFitting, List.length_append]
  -- the appends behind the path, from the first one on
  intro out₃ _
  rw [appendOption_fitting capacity out₃ (by decide) (hshort _)]
  refine appendFitting_bind ?_
  intro out₄ _
  rw [appendOption_fitting capacity out₄ (by decide) (hshort _)]
  refine appendFitting_bind ?_
  intro out₅ h₅
  have hsize : (if block.size1 > 0 then appendOption capacity out₅ (60 - 27) (encodeUint block.size1)
      else .ok out₅) = appendFitting capacity out₅
        (if block.size1 > 0 then optionBytes 33 (encodeUint block.size1) else []) := by
    split
    · exact appendOption_fitting capacity out₅ (by decide) (hshort _)
    · exact (appendFitting_nil h₅).symm
  rw [hsize]
  refine appendFitting_bind ?_
  intro out₆ h₆
  exact appendPayload_fitting h₆

end AdaptiveLowpan
