import AdaptiveLowpan.CoapSerialisation

/-! # Building into the caller's array

The builder as it writes into an array that it does not own, which may go on behind the
announced capacity. It ends as the builder of `CoapBlock` does, which only collects the
bytes, and leaves everything from the capacity on as it was. -/

namespace AdaptiveLowpan.CoapOutput
open ByteWords CheckedMemory CoapMessage

structure OutputBuffer where
  bytes : Bytes
  offset : ℕ

/-- A part of the builder. Whatever way it ends, the array stays behind. -/
abbrev Writer := ExceptT (Stop Failure) (StateM OutputBuffer)

/-- How the part ends, with the array that it leaves. -/
def Writer.exec {α : Type} (w : Writer α) (b : OutputBuffer) : Outcome α × OutputBuffer :=
  w.run.run b

def write (xs : Bytes) : Writer Unit := do
  let b ← get
  if b.offset + xs.length ≤ b.bytes.length then
    set (⟨b.bytes.take b.offset ++ (xs ++ b.bytes.drop (b.offset + xs.length)),
      b.offset + xs.length⟩ : OutputBuffer)
  else throw .fault

/-- `append_option`. -/
def appendOption (capacity delta : ℕ) (value : Bytes) : Writer Unit := do
  if value.length > uintMax then throw (.result .range)
  else
    let (deltaNibble, deltaExtension) ← encodeExtended delta
    let (lengthNibble, lengthExtension) ← encodeExtended value.length
    let required := 1 + deltaExtension.length + lengthExtension.length + value.length
    let offset := (← get).offset
    if offset > capacity ∨ required > capacity - offset then throw (.result .capacity)
    else
      write [(deltaNibble <<< 4) ||| lengthNibble]
      write deltaExtension
      write lengthExtension
      write value

def appendSegments (capacity : ℕ) : ℕ → Bytes → ℕ → Bool → Writer (ℕ × Bool)
  | 0, _, _, _ => throw .fault
  | turns + 1, cursor, previousOption, first =>
    if cursor = [] then return (previousOption, first)
    else
      let segment := cursor.takeWhile (· != slash)
      let rest := skipSlashes (cursor.dropWhile (· != slash))
      if segment.length > 0 then do
        let delta := if first then 11 - previousOption else 0
        appendOption capacity delta segment
        appendSegments capacity turns rest 11 false
      else appendSegments capacity turns rest previousOption first

def appendUriPath (capacity : ℕ) (path : Bytes) (previousOption : ℕ) : Writer ℕ := do
  let (previousOption, first) ←
    appendSegments capacity (path.length + 1) (skipSlashes path) previousOption true
  if first then throw (.result .format) else return previousOption

/-- `adaptive_coap_build_block1` up to the store to `*output_length`. -/
def writeBlock1 (block : CoapBlock) (uriPath : Bytes) (outputCapacity : ℕ) : Writer Unit := do
  if block.token.length > 8 ∨ block.szx > 6 ∨ block.blockNumber > 0xfffff ∨
      outputCapacity < 4 + block.token.length then
    throw (.result .argument)
  else
    write (coapHeader block)
    write block.token
    let previousOption ← appendUriPath outputCapacity uriPath 0
    appendOption outputCapacity (12 - previousOption) (encodeUint block.contentFormat)
    appendOption outputCapacity (27 - 12) (encodeUint (blockValue block))
    (if block.size1 > 0 then appendOption outputCapacity (60 - 27) (encodeUint block.size1)
    else pure ())
    if block.payload.length > 0 then
      let offset := (← get).offset
      if offset ≥ outputCapacity ∨ block.payload.length > outputCapacity - offset - 1 then
        throw (.result .capacity)
      else
        write [0xff]
        write block.payload

structure BuildTarget where
  output : Bytes
  outputLength : ℕ

def coapBuildBlock1 (block : CoapBlock) (uriPath : Bytes) (outputCapacity : ℕ)
    (target : BuildTarget) : Outcome Unit × BuildTarget :=
  match (writeBlock1 block uriPath outputCapacity).exec ⟨target.output, 0⟩ with
  | (.ok (), b) => (.ok (), ⟨b.bytes, b.offset⟩)
  | (.error e, b) => (.error e, ⟨b.bytes, target.outputLength⟩)

/-! ## The builder that collects bytes -/

variable {α β : Type} {original : Bytes} {capacity : ℕ}

theorem exec_bind (w : Writer α) (k : α → Writer β) (b : OutputBuffer) :
    (w >>= k).exec b =
      match w.exec b with
      | (.ok a, b) => (k a).exec b
      | (.error e, b) => (.error e, b) := by
  change (ExceptT.bindCont k (w.exec b).1 : StateM OutputBuffer _) (w.exec b).2 = _
  rcases w.exec b with ⟨e | a, b'⟩ <;> rfl

def written (original out : Bytes) : OutputBuffer := ⟨out ++ original.drop out.length, out.length⟩

/-- The end of a part of the builder that collects bytes, and of one that writes them:
the same end, with the array written within the capacity. The first returns the bytes
so far, and with them what the second returns. -/
def EndsAlike (original : Bytes) (capacity : ℕ) (p : β → Bytes × α) :
    Outcome β → Outcome α × OutputBuffer → Prop
  | .ok b, result =>
    (p b).1.length ≤ capacity ∧ result = (.ok (p b).2, written original (p b).1)
  | .error (.result r), result =>
    ∃ out, out.length ≤ capacity ∧ result = (fail r, written original out)
  | .error .fault, _ => True

abbrev bytesOnly (out : Bytes) : Bytes × Unit := (out, ())

variable {p : β → Bytes × α}

theorem EndsAlike.bind {γ δ : Type} {q : δ → Bytes × γ} {x : Outcome β} {g : β → Outcome δ}
    {w : Writer α} {k : α → Writer γ} {s : OutputBuffer}
    (hw : EndsAlike original capacity p x (w.exec s))
    (hk : ∀ b, (p b).1.length ≤ capacity →
      EndsAlike original capacity q (g b) ((k (p b).2).exec (written original (p b).1))) :
    EndsAlike original capacity q (x >>= g) ((w >>= k).exec s) := by
  rw [exec_bind]
  rcases x with (r | _) | b
  · obtain ⟨out, hout, hrun⟩ := hw
    rw [hrun]
    exact ⟨out, hout, rfl⟩
  · exact trivial
  · obtain ⟨hout, hrun⟩ := hw
    rw [hrun]
    exact hk b hout

/-- A part that stops without having written anything. -/
theorem EndsAlike.error {out : Bytes} (hout : out.length ≤ capacity) (e : Stop Failure) :
    EndsAlike original capacity p (.error e) (.error e, written original out) := by
  cases e with
  | result r => exact ⟨out, hout, rfl⟩
  | fault => exact trivial

theorem EndsAlike.ite {c : Prop} [Decidable c] {x y : Outcome β} {w v : Writer α} {s : OutputBuffer}
    (h : c → EndsAlike original capacity p x (w.exec s))
    (h' : ¬c → EndsAlike original capacity p y (v.exec s)) :
    EndsAlike original capacity p (if c then x else y) ((if c then w else v).exec s) := by
  split
  · exact h ‹c›
  · exact h' ‹¬c›

theorem endsAlike_write (horiginal : capacity ≤ original.length) (out xs : Bytes) :
    EndsAlike original capacity bytesOnly (emit capacity out xs)
      ((write xs).exec (written original out)) := by
  by_cases hfit : out.length + xs.length ≤ capacity
  · rw [emit_of_le hfit]
    refine ⟨by rw [List.length_append]; exact hfit, ?_⟩
    have hroom : (written original out).offset + xs.length ≤ (written original out).bytes.length := by
      simp only [written, List.length_append, List.length_drop]
      omega
    have hwritten : written original (out ++ xs) =
        ⟨(written original out).bytes.take (written original out).offset ++
          (xs ++ (written original out).bytes.drop
            ((written original out).offset + xs.length)),
          (written original out).offset + xs.length⟩ := by
      have hrest : (out ++ original.drop out.length).drop (out.length + xs.length) =
          original.drop (out.length + xs.length) := by
        rw [← List.drop_drop, List.drop_left, List.drop_drop]
      simp only [written, List.length_append, List.take_left, List.append_assoc, hrest]
    rw [hwritten]
    simp only [write]
    rw [exec_bind]
    change (if _ then _ else _ : Writer Unit).exec (written original out) = _
    rw [if_pos hroom]
    rfl
  · rw [emit, if_neg hfit]
    exact trivial

/-! ## Layer by layer -/

section Layers

variable (horiginal : capacity ≤ original.length)
include horiginal

theorem endsAlike_appendOption {out : Bytes} (hout : out.length ≤ capacity) (delta : ℕ)
    (value : Bytes) :
    EndsAlike original capacity bytesOnly (AdaptiveLowpan.appendOption capacity out delta value)
      ((appendOption capacity delta value).exec (written original out)) := by
  unfold appendOption AdaptiveLowpan.appendOption
  split
  · exact .error hout _
  rcases encodeExtended delta with e | ⟨deltaNibble, deltaExtension⟩
  · exact .error hout e
  rcases encodeExtended value.length with e | ⟨lengthNibble, lengthExtension⟩
  · exact .error hout e
  simp only [ok_bind]
  refine EndsAlike.ite (w := throw _) (fun _ => .error hout _) ?_
  intro _
  refine .bind (endsAlike_write horiginal out _) ?_
  intro out₁ _
  refine .bind (endsAlike_write horiginal out₁ _) ?_
  intro out₂ _
  refine .bind (endsAlike_write horiginal out₂ _) ?_
  intro out₃ _
  exact endsAlike_write horiginal out₃ _

theorem endsAlike_appendSegments (turns : ℕ) (cursor : Bytes) (previousOption : ℕ) (first : Bool)
    {out : Bytes} (hout : out.length ≤ capacity) :
    EndsAlike original capacity id
      (AdaptiveLowpan.appendSegments capacity turns cursor previousOption first out)
      ((appendSegments capacity turns cursor previousOption first).exec (written original out)) := by
  induction turns generalizing cursor previousOption first out with
  | zero => exact trivial
  | succ turns ih =>
    rw [appendSegments, AdaptiveLowpan.appendSegments]
    split
    · exact ⟨hout, rfl⟩
    simp only
    split
    · refine .bind (endsAlike_appendOption horiginal hout _ _) ?_
      intro out' hout'
      exact ih _ 11 false hout'
    · exact ih _ previousOption first hout

theorem endsAlike_appendUriPath (path : Bytes) (previousOption : ℕ) {out : Bytes}
    (hout : out.length ≤ capacity) :
    EndsAlike original capacity id (AdaptiveLowpan.appendUriPath capacity out path previousOption)
      ((appendUriPath capacity path previousOption).exec (written original out)) := by
  unfold appendUriPath AdaptiveLowpan.appendUriPath
  refine .bind (endsAlike_appendSegments horiginal _ _ _ _ hout) ?_
  rintro ⟨out', previousOption', first⟩ hout'
  cases first with
  | true => exact .error hout' _
  | false => exact ⟨hout', rfl⟩

theorem endsAlike_writeBlock1 (block : CoapBlock) (path : Bytes) :
    EndsAlike original capacity bytesOnly (AdaptiveLowpan.coapBuildBlock1 block path capacity)
      ((writeBlock1 block path capacity).exec (written original [])) := by
  have hempty : ([] : Bytes).length ≤ capacity := Nat.zero_le _
  unfold writeBlock1 AdaptiveLowpan.coapBuildBlock1
  split
  · exact .error hempty _
  refine .bind (endsAlike_write horiginal _ _) ?_
  intro out₁ _
  refine .bind (endsAlike_write horiginal out₁ _) ?_
  intro out₂ h₂
  refine .bind (endsAlike_appendUriPath horiginal path 0 h₂) ?_
  rintro ⟨out₃, previousOption⟩ h₃
  refine .bind (endsAlike_appendOption horiginal h₃ _ _) ?_
  intro out₄ h₄
  refine .bind (endsAlike_appendOption horiginal h₄ _ _) ?_
  intro out₅ h₅
  have hsize : EndsAlike original capacity bytesOnly
      (if block.size1 > 0 then
        AdaptiveLowpan.appendOption capacity out₅ (60 - 27) (encodeUint block.size1)
      else .ok out₅)
      ((if block.size1 > 0 then appendOption capacity (60 - 27) (encodeUint block.size1)
      else pure ()).exec (written original out₅)) :=
    .ite (fun _ => endsAlike_appendOption horiginal h₅ _ _) (fun _ => ⟨h₅, rfl⟩)
  refine .bind hsize ?_
  intro out₆ h₆
  refine .ite (fun _ => ?_) (fun _ => ⟨h₆, rfl⟩)
  refine EndsAlike.ite (w := throw _) (fun _ => .error h₆ _) (fun _ => ?_)
  refine .bind (endsAlike_write horiginal out₆ _) ?_
  intro out₇ _
  exact endsAlike_write horiginal out₇ _

end Layers

/-! ## The whole call -/

theorem written_drop {out : Bytes} (hout : out.length ≤ capacity) :
    (written original out).bytes.drop capacity = original.drop capacity := by
  obtain ⟨rest, rfl⟩ := Nat.exists_eq_add_of_le hout
  rw [written, ← List.drop_drop, List.drop_left, List.drop_drop]

theorem written_length {out : Bytes} (horiginal : capacity ≤ original.length)
    (hout : out.length ≤ capacity) : (written original out).bytes.length = original.length := by
  simp only [written, List.length_append, List.length_drop]
  omega

/-- The call returns `ADAPTIVE_OK` exactly when the request fits. It then has written the
request and its length; otherwise it has written nothing from the capacity on, and not the
length. -/
structure WritesRequest (block : CoapBlock) (path : Bytes) (capacity : ℕ) (target : BuildTarget)
    (result : Outcome Unit × BuildTarget) : Prop where
  ok_iff : result.1 = .ok () ↔ (requestBytes block path).length ≤ capacity
  fits : (requestBytes block path).length ≤ capacity → result.2 =
    ⟨requestBytes block path ++ target.output.drop (requestBytes block path).length,
      (requestBytes block path).length⟩
  full : capacity < (requestBytes block path).length →
    (∃ r, result.1 = fail r) ∧ result.2.outputLength = target.outputLength ∧
      result.2.output.length = target.output.length ∧
      result.2.output.drop capacity = target.output.drop capacity

/-- For every block that meets the argument checks, and every path with a segment and with
segments that an option can carry. -/
theorem coapBuildBlock1_writesRequest (block : CoapBlock) (path : Bytes) (capacity : ℕ)
    (target : BuildTarget) (hb : Buildable block) (htype : block.type < 4)
    (hpath : pathSegments path ≠ [])
    (hlong : ∀ segment ∈ pathSegments path, segment.length ≤ 65804)
    (hroom : capacity ≤ target.output.length) :
    WritesRequest block path capacity target (coapBuildBlock1 block path capacity target) := by
  have halike := endsAlike_writeBlock1 hroom block path
  rw [coapBuildBlock1_eq hb htype hpath hlong capacity] at halike
  have hlength : 4 + block.token.length ≤ (requestBytes block path).length := by
    simp only [requestBytes, List.length_append, List.length_cons, List.length_nil]
    omega
  change EndsAlike _ _ _ _ ((writeBlock1 block path capacity).exec ⟨target.output, 0⟩) at halike
  rw [coapBuildBlock1]
  by_cases hfit : (requestBytes block path).length ≤ capacity
  · rw [if_neg (by omega), if_pos hfit] at halike
    obtain ⟨-, hexec⟩ := halike
    rw [hexec]
    exact ⟨iff_of_true rfl hfit, fun _ => rfl, fun hfull => absurd hfit (Nat.not_le.mpr hfull)⟩
  · -- the call stops with one of two codes, behind the same bytes
    have hstop : ∃ r out, out.length ≤ capacity ∧
        (writeBlock1 block path capacity).exec ⟨target.output, 0⟩ =
          (fail r, written target.output out) := by
      rw [if_neg hfit] at halike
      split at halike
      · exact ⟨_, halike⟩
      · exact ⟨_, halike⟩
    obtain ⟨r, out, hout, hexec⟩ := hstop
    rw [hexec]
    refine ⟨iff_of_false ?_ hfit, fun h => absurd h hfit, fun _ => ?_⟩
    · exact fail_ne_ok
    · exact ⟨⟨r, rfl⟩, rfl, written_length hroom hout, written_drop hout⟩

/-- Block 3 of window 7 under the path `/a//bc`, into an array of 40 bytes, of which 25 are
announced: one byte too few. -/
theorem coapBuildBlock1_writesRequest_path :
    WritesRequest
      { type := 0, code := 2, messageId := 0x1234, token := [0, 0, 0, 7], blockNumber := 3
        more := 1, szx := 2, contentFormat := 42, size1 := 300, payload := [0xff, 1, 2] }
      [0x2f, 0x61, 0x2f, 0x2f, 0x62, 0x63] 25 ⟨List.replicate 40 0xee, 99⟩
      (coapBuildBlock1
        { type := 0, code := 2, messageId := 0x1234, token := [0, 0, 0, 7], blockNumber := 3
          more := 1, szx := 2, contentFormat := 42, size1 := 300, payload := [0xff, 1, 2] }
        [0x2f, 0x61, 0x2f, 0x2f, 0x62, 0x63] 25 ⟨List.replicate 40 0xee, 99⟩) :=
  coapBuildBlock1_writesRequest _ _ 25 _ ⟨by decide, by decide, by decide⟩ (by decide)
    (by decide) (by decide) (by decide)

end AdaptiveLowpan.CoapOutput
