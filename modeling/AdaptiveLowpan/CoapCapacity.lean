import AdaptiveLowpan.CoapBuilding
import Mathlib.Data.List.TakeWhile

/-! # Packets that fit

The path of a configuration takes at most three bytes for every two characters,
whichever way it splits into segments, so that every block of the pipeline fits the
packet buffer. -/

namespace AdaptiveLowpan
open ByteWords CheckedMemory CoapMessage

theorem length_extended (n : ℕ) :
    (Extended.ofNat n).bytes.length = if n < 13 then 0 else if n < 269 then 1 else 2 := by
  unfold Extended.ofNat
  split
  · rfl
  · split <;> rfl

theorem length_rawOption (delta : ℕ) (value : Bytes) (h : value.length ≤ 65804) :
    (rawOption delta value h).bytes.length =
      1 + (Extended.ofNat delta).bytes.length + (Extended.ofNat value.length).bytes.length +
        value.length := by
  simp only [RawOption.bytes, rawOption, List.length_cons, List.length_append]
  omega

/-- An option with a short number step and value takes one or two bytes more than its value. -/
theorem appendOption_total (capacity : ℕ) (out value : Bytes) (delta : ℕ) (hd : delta < 269)
    (hv : value.length < 269)
    (hroom : out.length + 1 + (if delta < 13 then 0 else 1) +
      (if value.length < 13 then 0 else 1) + value.length ≤ capacity) :
    ∃ out', appendOption capacity out delta value = .ok out' ∧
      out'.length = out.length + 1 + (if delta < 13 then 0 else 1) +
        (if value.length < 13 then 0 else 1) + value.length := by
  have hlen := length_rawOption delta value (by omega)
  rw [length_extended, length_extended, if_pos hd, if_pos hv] at hlen
  refine ⟨out ++ (rawOption delta value (by omega)).bytes, ?_, ?_⟩
  · rw [appendOption_of_le (by omega) (by omega), if_pos (by rw [hlen]; omega)]
  · rw [List.length_append, hlen]
    omega

/-! ## The path -/

/-- Twice the bytes that the options of a path suffix take at most. -/
def pathCost (cursor : Bytes) : ℕ := if cursor = [] then 0 else 3 * (cursor.length + 1)

theorem length_takeWhile_add_dropWhile (p : UInt8 → Bool) (cursor : Bytes) :
    (cursor.takeWhile p).length + (cursor.dropWhile p).length = cursor.length := by
  rw [← List.length_append, List.takeWhile_append_dropWhile]

/-- Past a segment comes the end of the path or a slash. -/
theorem length_rest (cursor : Bytes) :
    skipSlashes (cursor.dropWhile (· != slash)) = [] ∨
      (cursor.takeWhile (· != slash)).length +
        (skipSlashes (cursor.dropWhile (· != slash))).length < cursor.length := by
  have hsplit := length_takeWhile_add_dropWhile (· != slash) cursor
  cases hdrop : cursor.dropWhile (· != slash) with
  | nil =>
    left
    rfl
  | cons c rest =>
    right
    have hne : cursor.dropWhile (· != slash) ≠ [] := by simp [hdrop]
    have hhead := List.head_dropWhile_not (· != slash) hne
    simp only [hdrop, List.head_cons] at hhead
    have hslash : c = slash := by simpa using hhead
    have hskip : skipSlashes (c :: rest) = skipSlashes rest := by
      simp [skipSlashes, hslash]
    have hle : (skipSlashes rest).length ≤ rest.length :=
      (List.dropWhile_sublist (· == slash)).length_le
    rw [hdrop, List.length_cons] at hsplit
    rw [hskip]
    omega

theorem segment_ne_nil {cursor : Bytes} (hne : cursor ≠ []) (hhead : cursor.head? ≠ some slash) :
    0 < (cursor.takeWhile (· != slash)).length := by
  cases cursor with
  | nil => exact absurd rfl hne
  | cons c rest =>
    have hc : c ≠ slash := fun h => hhead (by rw [h]; rfl)
    simp [hc]

theorem head?_skipSlashes (cursor : Bytes) : (skipSlashes cursor).head? ≠ some slash := by
  intro h
  have hnot := List.head?_dropWhile_not (· == slash) cursor
  rw [skipSlashes] at h
  rw [h] at hnot
  simp at hnot

/-- The path loop succeeds when its cost fits, and has written an option unless
there was nothing left. -/
theorem appendSegments_total (capacity turns : ℕ) (cursor out : Bytes) (first : Bool)
    (hturns : cursor.length < turns) (hshort : cursor.length < 269)
    (hhead : cursor.head? ≠ some slash)
    (hroom : 2 * out.length + pathCost cursor ≤ 2 * capacity) :
    ∃ out' first', appendSegments capacity turns cursor (pathNumber first) first out =
        .ok (out', pathNumber first', first') ∧
      2 * out'.length ≤ 2 * out.length + pathCost cursor ∧
      (first' = true → first = true ∧ cursor = []) := by
  induction turns generalizing cursor first out with
  | zero => omega
  | succ turns ih =>
    rw [appendSegments]
    by_cases hnil : cursor = []
    · rw [if_pos hnil]
      exact ⟨out, first, rfl, by omega, fun h => ⟨h, hnil⟩⟩
    have hsegment := segment_ne_nil hnil hhead
    have hsplit := length_takeWhile_add_dropWhile (· != slash) cursor
    have hrest := length_rest cursor
    rw [pathCost, if_neg hnil] at hroom
    rw [if_neg hnil]
    simp only
    set segment := cursor.takeWhile (· != slash)
    set rest := skipSlashes (cursor.dropWhile (· != slash)) with hrestdef
    rw [if_pos hsegment]
    have hdelta : (if first = true then 11 - pathNumber first else 0) < 13 := by
      cases first <;> decide
    obtain ⟨out₁, happend, hlen₁⟩ := appendOption_total capacity out segment
      (if first = true then 11 - pathNumber first else 0) (by omega) (by omega)
      (by rw [if_pos hdelta]; split <;> omega)
    rw [if_pos hdelta] at hlen₁
    have hcost : 2 * out₁.length + pathCost rest ≤ 2 * out.length + 3 * (cursor.length + 1) := by
      rcases hrest with hend | hlt
      · rw [pathCost, if_pos hend, hlen₁]
        split <;> omega
      · rw [pathCost, hlen₁]
        split <;> split <;> omega
    have hrestlt : rest.length < cursor.length := by
      rcases hrest with hend | hlt
      · rw [hend, List.length_nil]
        omega
      · omega
    obtain ⟨out', first', hloop, hlen', hfirst'⟩ :=
      ih rest out₁ false (by omega) (by omega) (head?_skipSlashes _) (by omega)
    refine ⟨out', first', ?_, ?_, fun h => absurd (hfirst' h).1 (by decide)⟩
    · rw [happend, ok_bind]
      exact hloop
    · rw [pathCost, if_neg hnil]
      omega

theorem skipSlashes_ne_nil {path : Bytes} (h : ∃ c ∈ path, c ≠ slash) : skipSlashes path ≠ [] := by
  intro hnil
  obtain ⟨c, hc, hne⟩ := h
  have hall := List.dropWhile_eq_nil_iff.mp hnil c hc
  exact hne (by simpa using hall)

theorem appendUriPath_total (capacity : ℕ) (out : Bytes) {path : Bytes}
    (hpath : ∃ c ∈ path, c ≠ slash) (hlen : path.length ≤ maxUriPath)
    (hroom : out.length + 96 ≤ capacity) :
    ∃ out', appendUriPath capacity out path 0 = .ok (out', 11) ∧ out'.length ≤ out.length + 96 := by
  have hmax : maxUriPath = 63 := rfl
  have hle : (skipSlashes path).length ≤ path.length :=
    (List.dropWhile_sublist (· == slash)).length_le
  have hcost : pathCost (skipSlashes path) ≤ 192 := by
    rw [pathCost]
    split <;> omega
  obtain ⟨out', first', hloop, hlen', hfirst'⟩ := appendSegments_total capacity
    (path.length + 1) (skipSlashes path) out true (by omega) (by omega)
    (head?_skipSlashes path) (by omega)
  have hfalse : first' = false := by
    cases first' with
    | false => rfl
    | true => exact absurd (hfirst' rfl).2 (skipSlashes_ne_nil hpath)
  subst hfalse
  refine ⟨out', ?_, by omega⟩
  rw [appendUriPath]
  change (appendSegments capacity (path.length + 1) (skipSlashes path) (pathNumber true) true out
    >>= _) = _
  rw [hloop]
  rfl

/-! ## The packet -/

/-- Every block with a four-byte token and a payload of at most the maximal block
size fits the packet buffer. -/
theorem coapBuildBlock1_total {block : CoapBlock} {path : Bytes} (hb : Buildable block)
    (htoken : block.token.length = 4) (hpath : ∃ c ∈ path, c ≠ slash)
    (hlen : path.length ≤ maxUriPath) (hpayload : block.payload.length ≤ maxBlockSize) :
    ∃ packet, coapBuildBlock1 block path maxCoapPacket = .ok packet := by
  have hsize : maxBlockSize = 1024 := rfl
  have hpacket : maxCoapPacket = 1152 := rfl
  have hshort (v : UInt32) : (encodeUint v).length ≤ 4 := length_encodeUint_le v
  have h12 := hshort block.contentFormat
  have h27 := hshort (blockValue block)
  have h60 := hshort block.size1
  have hheader : (coapHeader block).length = 4 := rfl
  have hargs : ¬(block.token.length > 8 ∨ block.szx > 6 ∨ block.blockNumber > 0xfffff ∨
      maxCoapPacket < 4 + block.token.length) := by
    simp only [not_or]
    exact ⟨by omega, UInt8.not_lt.mpr hb.szx_le, UInt32.not_lt.mpr hb.number_le, by omega⟩
  rw [coapBuildBlock1, if_neg hargs, emit_of_le (by rw [List.length_nil]; omega), ok_bind,
    List.nil_append, emit_of_le (by omega), ok_bind]
  obtain ⟨out₃, h₃, hlen₃⟩ := appendUriPath_total maxCoapPacket
    (coapHeader block ++ block.token) hpath hlen (by rw [List.length_append]; omega)
  rw [List.length_append] at hlen₃
  rw [h₃, ok_bind]
  simp only
  obtain ⟨out₄, h₄, hlen₄⟩ := appendOption_total maxCoapPacket out₃
    (encodeUint block.contentFormat) (12 - 11) (by omega) (by omega)
    (by split <;> split <;> omega)
  rw [h₄, ok_bind]
  rw [if_pos (by omega), if_pos (by omega)] at hlen₄
  obtain ⟨out₅, h₅, hlen₅⟩ := appendOption_total maxCoapPacket out₄
    (encodeUint (blockValue block)) (27 - 12) (by omega) (by omega)
    (by split <;> split <;> omega)
  rw [h₅, ok_bind]
  rw [if_neg (by omega), if_pos (by omega)] at hlen₅
  have h₆ : ∃ out₆, (if block.size1 > 0 then
        appendOption maxCoapPacket out₅ (60 - 27) (encodeUint block.size1) else .ok out₅) =
      .ok out₆ ∧ out₆.length ≤ 121 := by
    split
    · obtain ⟨out₆, h₆, hlen₆⟩ := appendOption_total maxCoapPacket out₅
        (encodeUint block.size1) (60 - 27) (by omega) (by omega)
        (by split <;> split <;> omega)
      rw [if_neg (by omega), if_pos (by omega)] at hlen₆
      exact ⟨out₆, h₆, by omega⟩
    · exact ⟨out₅, rfl, by omega⟩
  obtain ⟨out₆, h₆, hlen₆⟩ := h₆
  rw [h₆, ok_bind]
  split
  · rw [if_neg (by omega), emit_of_le (by rw [List.length_singleton]; omega), ok_bind,
      emit_of_le (by rw [List.length_append, List.length_singleton]; omega)]
    exact ⟨_, rfl⟩
  · exact ⟨_, rfl⟩

end AdaptiveLowpan
