import AdaptiveLowpan.Rejection

/-! # What a final block ends

The receiver closes a transfer when the decoder accepts its representation, and leaves
it open when the decoder refuses it: the next block is then appended behind the final
one. A run keeps its open transfers free of final blocks exactly when every final block
that it appends completes a representation that is decoded. -/

namespace AdaptiveLowpan
open ByteWords CheckedMemory

structure AppendedBlock where
  block : CoapBlock
  plaintext : Bytes
  deriving DecidableEq

variable {F D σ : Type} [CDouble D] [CFloat F D] {P : SecurityProvider σ}

/-- What a call of `receiverAccept` appends to the representation, if anything. -/
def Receiver.appends (P : SecurityProvider σ) (receiver : Receiver σ) (packet : Bytes) :
    Option AppendedBlock :=
  match coapParseBlock1 packet with
  | .error _ => none
  | .ok block =>
    if (receiver.restart block).expects block then
      match (securityOpen P receiver.security block.payloadPointer (pipelineBuildAad block)
          maxBlockSize).1 with
      | .error _ => none
      | .ok plaintext =>
        if (receiver.restart block).representation.length + plaintext.length ≤
            maxRepresentation then
          some ⟨block, plaintext⟩
        else none
    else none

def startsTransfer (packet : Bytes) : Bool :=
  match coapParseBlock1 packet with
  | .error _ => false
  | .ok block => block.blockNumber = 0

/-- What was appended since the last block 0, before a packet appends its own block. -/
def keptBlocks (packet : Bytes) (appended : List AppendedBlock) : List AppendedBlock :=
  if startsTransfer packet then [] else appended

/-- A call of `receiverAccept`: its packet, and the objects that it decodes into. -/
structure AcceptCall (F D : Type) where
  packet : Bytes
  out : DecodeTarget F D

/-- The receiver after a run of calls, with the blocks appended since the last block 0. -/
def receiverHistory (P : SecurityProvider σ) (security : σ) (calls : List (AcceptCall F D)) :
    Receiver σ × List AppendedBlock :=
  calls.foldl (fun s call =>
    ((receiverAccept P s.1 call.packet call.out).2.1,
      keptBlocks call.packet s.2 ++ (s.1.appends P call.packet).toList))
    (receiverInit security, [])

/-- The representation of an open transfer is what the blocks `0 .. nextBlock - 1` of its
token carried, and none of them was a final block. -/
def OpenTransfer (receiver : Receiver σ) (appended : List AppendedBlock) : Prop :=
  receiver.active = true →
    receiver.representation = (appended.map (·.plaintext)).flatten ∧
    appended.map (·.block.blockNumber.toNat) = List.range receiver.nextBlock.toNat ∧
    ∀ a ∈ appended, a.block.token = receiver.token ∧ a.block.more = 1

/-- A call appends nothing behind a final block. -/
def AppendsInOrder (P : SecurityProvider σ) (receiver : Receiver σ)
    (appended : List AppendedBlock) (packet : Bytes) : Prop :=
  receiver.appends P packet ≠ none → ∀ a ∈ keptBlocks packet appended, a.block.more ≠ 0

/-- If the call appends a final block, the decoder accepts the representation that it
completes. -/
def DecodesFinal (P : SecurityProvider σ) (receiver : Receiver σ) (call : AcceptCall F D) : Prop :=
  ∀ a, receiver.appends P call.packet = some a → a.block.more = 0 →
    (codecDecode ((receiver.restart a.block).representation ++ a.plaintext) call.out).1 = .ok ()

/-- Every state that the run reaches is an open transfer without a final block, and every
call appends in order. -/
def EndsTransfers (P : SecurityProvider σ) (security : σ) (calls : List (AcceptCall F D)) : Prop :=
  (∀ earlier later, calls = earlier ++ later →
    OpenTransfer (receiverHistory P security earlier).1 (receiverHistory P security earlier).2) ∧
  ∀ earlier call later, calls = earlier ++ call :: later →
    AppendsInOrder P (receiverHistory P security earlier).1
      (receiverHistory P security earlier).2 call.packet

theorem receiverHistory_concat (P : SecurityProvider σ) (security : σ)
    (calls : List (AcceptCall F D)) (call : AcceptCall F D) :
    receiverHistory P security (calls ++ [call]) =
      ((receiverAccept P (receiverHistory P security calls).1 call.packet call.out).2.1,
        keptBlocks call.packet (receiverHistory P security calls).2 ++
          ((receiverHistory P security calls).1.appends P call.packet).toList) := by
  rw [receiverHistory, List.foldl_append]
  rfl

/-! ## One call -/

section Call

variable {receiver : Receiver σ} {packet : Bytes} {block : CoapBlock} {appended : List AppendedBlock}

theorem keptBlocks_of_parse (hparse : coapParseBlock1 packet = .ok block) :
    keptBlocks packet appended = if block.blockNumber = 0 then [] else appended := by
  simp [keptBlocks, startsTransfer, hparse]

theorem Receiver.appends_of_error {e : CheckedMemory.Stop Failure}
    (hparse : coapParseBlock1 packet = .error e) : receiver.appends P packet = none := by
  rw [appends, hparse]

theorem Receiver.appends_of_unexpected (hparse : coapParseBlock1 packet = .ok block)
    (hexpects : (receiver.restart block).expects block = false) :
    receiver.appends P packet = none := by
  rw [appends, hparse]
  simp only
  rw [if_neg (by rw [hexpects]; exact Bool.false_ne_true)]

theorem Receiver.appends_of_unopened {e : CheckedMemory.Stop Failure} {security : σ}
    (hparse : coapParseBlock1 packet = .ok block)
    (hexpects : (receiver.restart block).expects block = true)
    (hopen : securityOpen P receiver.security block.payloadPointer (pipelineBuildAad block)
      maxBlockSize = (.error e, security)) : receiver.appends P packet = none := by
  rw [appends, hparse]
  simp only
  rw [if_pos hexpects, hopen]

theorem Receiver.appends_of_open {plaintext : Bytes} {security : σ}
    (hparse : coapParseBlock1 packet = .ok block)
    (hexpects : (receiver.restart block).expects block = true)
    (hopen : securityOpen P receiver.security block.payloadPointer (pipelineBuildAad block)
      maxBlockSize = (.ok plaintext, security)) :
    receiver.appends P packet =
      if (receiver.restart block).representation.length + plaintext.length ≤ maxRepresentation
      then some ⟨block, plaintext⟩ else none := by
  rw [appends, hparse]
  simp only
  rw [if_pos hexpects, hopen]

theorem OpenTransfer.restart (h : OpenTransfer receiver appended)
    (hparse : coapParseBlock1 packet = .ok block) :
    OpenTransfer (receiver.restart block) (keptBlocks packet appended) := by
  rw [keptBlocks_of_parse hparse]
  by_cases hzero : block.blockNumber = 0
  · rw [Receiver.restart_of_zero hzero, if_pos hzero]
    intro _
    exact ⟨rfl, rfl, by simp⟩
  · rw [Receiver.restart_of_ne hzero, if_neg hzero]
    exact h

theorem Receiver.nextBlock_restart_le (h : receiver.nextBlock.toNat ≤ 2 ^ 28) (block : CoapBlock) :
    (receiver.restart block).nextBlock.toNat ≤ 2 ^ 28 := by
  by_cases hzero : block.blockNumber = 0
  · rw [restart_of_zero hzero]
    exact Nat.zero_le _
  · rw [restart_of_ne hzero]
    exact h

theorem Receiver.nextBlock_store (hparse : coapParseBlock1 packet = .ok block)
    (hexpects : receiver.expects block = true) (security : σ) (plaintext : Bytes) :
    (receiver.store security plaintext).nextBlock.toNat = receiver.nextBlock.toNat + 1 ∧
      (receiver.store security plaintext).nextBlock.toNat ≤ 2 ^ 28 := by
  obtain ⟨-, hnumber, -⟩ := expects_iff.mp hexpects
  have hlt := (parsed_bounds hparse).1
  rw [hnumber] at hlt
  have hone : (1 : UInt32).toNat = 1 := rfl
  simp only [store, UInt32.toNat_add, hone]
  omega

theorem OpenTransfer.store (h : OpenTransfer receiver appended)
    (hparse : coapParseBlock1 packet = .ok block) (hexpects : receiver.expects block = true)
    (hmore : block.more ≠ 0) (security : σ) (plaintext : Bytes) :
    OpenTransfer (receiver.store security plaintext) (appended ++ [⟨block, plaintext⟩]) := by
  obtain ⟨hactive, hnumber, htoken⟩ := Receiver.expects_iff.mp hexpects
  obtain ⟨hrepresentation, hnumbers, hblocks⟩ := h hactive
  have hmore' : block.more = 1 := (parsed_bounds hparse).2.resolve_left hmore
  intro _
  refine ⟨?_, ?_, ?_⟩
  · simp [Receiver.store, hrepresentation]
  · rw [(Receiver.nextBlock_store hparse hexpects security plaintext).1, List.range_succ,
      List.map_append, hnumbers, List.map_singleton, hnumber]
  · intro a ha
    rcases List.mem_append.mp ha with ha | ha
    · exact hblocks a ha
    · rw [List.mem_singleton.mp ha]
      exact ⟨htoken, hmore'⟩

end Call

/-- What holds of a run whose final blocks were all decoded. -/
structure HistoryInvariant (receiver : Receiver σ) (appended : List AppendedBlock) : Prop where
  openTransfer : OpenTransfer receiver appended
  nextBlock_le : receiver.nextBlock.toNat ≤ 2 ^ 28

/-- A call keeps the invariant unless it appends a final block that is not decoded. -/
theorem HistoryInvariant.accept {receiver : Receiver σ} {appended : List AppendedBlock}
    (h : HistoryInvariant receiver appended) {call : AcceptCall F D}
    (hfinal : DecodesFinal P receiver call) :
    HistoryInvariant (receiverAccept P receiver call.packet call.out).2.1
      (keptBlocks call.packet appended ++ (receiver.appends P call.packet).toList) := by
  have haccepts := receiverAccept_accepts P receiver call.packet call.out
  generalize receiverAccept P receiver call.packet call.out = result at haccepts ⊢
  cases haccepts with
  | malformed hparse =>
    rw [Receiver.appends_of_error hparse]
    simpa [keptBlocks, startsTransfer, hparse] using h
  | unexpected hparse hexpects =>
    rw [Receiver.appends_of_unexpected hparse hexpects, Option.toList_none, List.append_nil]
    exact ⟨h.openTransfer.restart hparse, Receiver.nextBlock_restart_le h.nextBlock_le _⟩
  | unopened hparse hexpects hopen =>
    rw [Receiver.appends_of_unopened hparse hexpects hopen, Option.toList_none, List.append_nil]
    exact ⟨h.openTransfer.restart hparse, Receiver.nextBlock_restart_le h.nextBlock_le _⟩
  | overflow hparse hexpects hopen hfull =>
    rw [Receiver.appends_of_open hparse hexpects hopen, if_neg (Nat.not_le.mpr hfull),
      Option.toList_none, List.append_nil]
    exact ⟨h.openTransfer.restart hparse, Receiver.nextBlock_restart_le h.nextBlock_le _⟩
  | stored hparse hexpects hopen hroom hmore =>
    rw [Receiver.appends_of_open hparse hexpects hopen, if_pos hroom]
    exact ⟨(h.openTransfer.restart hparse).store hparse hexpects hmore _ _,
      (Receiver.nextBlock_store hparse hexpects _ _).2⟩
  | undecoded hparse hexpects hopen hroom hlast hdecode =>
    have hok := hfinal _ (by rw [Receiver.appends_of_open hparse hexpects hopen, if_pos hroom])
      hlast
    simp only [hdecode] at hok
    cases hok
  | @complete block plaintext security out' hparse hexpects hopen hroom hlast hdecode =>
    refine ⟨?_, (Receiver.nextBlock_store hparse hexpects security plaintext).2⟩
    intro hactive
    cases hactive

/-- A final block that is not decoded is left in an open transfer. -/
theorem decodesFinal_of_openTransfer {receiver : Receiver σ} {appended : List AppendedBlock}
    {call : AcceptCall F D}
    (h : OpenTransfer (receiverAccept P receiver call.packet call.out).2.1
      (appended ++ (receiver.appends P call.packet).toList)) : DecodesFinal P receiver call := by
  intro a happends hlast
  have haccepts := receiverAccept_accepts P receiver call.packet call.out
  generalize receiverAccept P receiver call.packet call.out = result at h haccepts
  cases haccepts with
  | malformed hparse =>
    rw [Receiver.appends_of_error hparse] at happends
    cases happends
  | unexpected hparse hexpects =>
    rw [Receiver.appends_of_unexpected hparse hexpects] at happends
    cases happends
  | unopened hparse hexpects hopen =>
    rw [Receiver.appends_of_unopened hparse hexpects hopen] at happends
    cases happends
  | overflow hparse hexpects hopen hfull =>
    rw [Receiver.appends_of_open hparse hexpects hopen, if_neg (Nat.not_le.mpr hfull)] at happends
    cases happends
  | stored hparse hexpects hopen hroom hmore =>
    rw [Receiver.appends_of_open hparse hexpects hopen, if_pos hroom] at happends
    cases happends
    exact absurd hlast hmore
  | undecoded hparse hexpects hopen hroom _ hdecode =>
    obtain ⟨-, -, hblocks⟩ := h (Receiver.expects_iff.mp hexpects).1
    rw [happends] at hblocks
    have hmore := (hblocks a (by simp)).2
    rw [hlast] at hmore
    exact absurd hmore (by decide)
  | complete hparse hexpects hopen hroom _ hdecode =>
    rw [Receiver.appends_of_open hparse hexpects hopen, if_pos hroom] at happends
    cases happends
    rw [hdecode]

/-- In an open transfer without a final block, a block is appended behind blocks that
announce more. -/
theorem OpenTransfer.appendsInOrder {receiver : Receiver σ} {appended : List AppendedBlock}
    (h : OpenTransfer receiver appended) (packet : Bytes) :
    AppendsInOrder P receiver appended packet := by
  intro happends
  cases hparse : coapParseBlock1 packet with
  | error e => exact absurd (Receiver.appends_of_error hparse) happends
  | ok block =>
    cases hexpects : (receiver.restart block).expects block with
    | false => exact absurd (Receiver.appends_of_unexpected hparse hexpects) happends
    | true =>
      obtain ⟨-, -, hblocks⟩ := h.restart hparse (Receiver.expects_iff.mp hexpects).1
      intro a ha
      rw [(hblocks a ha).2]
      decide

/-! ## Runs -/

theorem historyInvariant_of_decodesFinal (security : σ) (calls : List (AcceptCall F D))
    (h : ∀ earlier call later, calls = earlier ++ call :: later →
      DecodesFinal P (receiverHistory P security earlier).1 call) :
    HistoryInvariant (receiverHistory P security calls).1 (receiverHistory P security calls).2 := by
  induction calls using List.reverseRecOn with
  | nil =>
    refine ⟨?_, Nat.zero_le _⟩
    intro hactive
    cases hactive
  | append_singleton calls call ih =>
    rw [receiverHistory_concat]
    apply HistoryInvariant.accept
    · apply ih
      rintro earlier call' later rfl
      exact h earlier call' (later ++ [call]) (by simp)
    · exact h calls call [] rfl

/-- A final block ends its transfer, in every run whose final blocks complete
representations that are decoded, and in no other run. -/
theorem endsTransfers_iff (P : SecurityProvider σ) (security : σ) (calls : List (AcceptCall F D)) :
    EndsTransfers P security calls ↔
      ∀ earlier call later, calls = earlier ++ call :: later →
        DecodesFinal P (receiverHistory P security earlier).1 call := by
  constructor
  · rintro ⟨hopen, -⟩ earlier call later hcalls
    have hafter := hopen (earlier ++ [call]) later (by rw [hcalls]; simp)
    rw [receiverHistory_concat] at hafter
    exact decodesFinal_of_openTransfer hafter
  · intro h
    have hinvariant : ∀ earlier later, calls = earlier ++ later →
        OpenTransfer (receiverHistory P security earlier).1
          (receiverHistory P security earlier).2 := by
      rintro earlier later rfl
      apply HistoryInvariant.openTransfer
      apply historyInvariant_of_decodesFinal
      rintro before call after rfl
      exact h before call (after ++ later) (by simp)
    refine ⟨hinvariant, ?_⟩
    intro earlier call later hcalls
    exact (hinvariant earlier (call :: later) hcalls).appendsInOrder call.packet

/-! ## A refused final block -/

/-- A block under token 9 that carries a record of the peer. -/
def peerPacket (blockNumber : UInt32) (sequence : UInt64) (plaintext : Bytes) : Bytes :=
  let block : CoapBlock :=
    { type := 0, code := 2, messageId := 1, token := [0, 0, 0, 9], blockNumber, more := 0, szx := 2
      contentFormat := 42, size1 := 0, payload := [] }
  let record := testRecord (securityTestPair 7).1.txKey sequence plaintext (pipelineBuildAad block)
  ((coapBuildBlock1 { block with payload := record } [0x74] maxCoapPacket).toOption).getD []

/-- Two final blocks, neither of which completes a representation. -/
def refusedCalls : List (AcceptCall Single ℚ) :=
  [⟨peerPacket 0 0 [1], smallTarget⟩, ⟨peerPacket 1 1 [2], smallTarget⟩]

/-- The second final block is appended behind the first, and the transfer stays open. -/
theorem refusedCalls_not_ended :
    (receiverHistory testProvider (securityTestPair 7).2 refusedCalls).1.active = true ∧
    (receiverHistory testProvider (securityTestPair 7).2 refusedCalls).1.representation = [1, 2] ∧
    (receiverHistory testProvider (securityTestPair 7).2 refusedCalls).2.map
      (fun a => (a.block.blockNumber, a.block.more)) = [(0, 0), (1, 0)] ∧
    ¬EndsTransfers testProvider (securityTestPair 7).2 refusedCalls := by
  have hrun : (receiverHistory testProvider (securityTestPair 7).2 refusedCalls).1.active = true ∧
      (receiverHistory testProvider (securityTestPair 7).2 refusedCalls).1.representation =
        [1, 2] ∧
      (receiverHistory testProvider (securityTestPair 7).2 refusedCalls).2.map
        (fun a => (a.block.blockNumber, a.block.more)) = [(0, 0), (1, 0)] := by
    decide +kernel
  obtain ⟨hactive, hrepresentation, hblocks⟩ := hrun
  refine ⟨hactive, hrepresentation, hblocks, ?_⟩
  rintro ⟨hopen, -⟩
  obtain ⟨-, -, hmore⟩ := hopen refusedCalls [] (by simp) hactive
  have hmem : ((0, 0) : UInt32 × UInt8) ∈
      (receiverHistory testProvider (securityTestPair 7).2 refusedCalls).2.map
        (fun a => (a.block.blockNumber, a.block.more)) := by
    rw [hblocks]
    simp
  obtain ⟨a, ha, hpair⟩ := List.mem_map.mp hmem
  have hlast : a.block.more = 0 := congrArg Prod.snd hpair
  rw [(hmore a ha).2] at hlast
  exact absurd hlast (by decide)

end AdaptiveLowpan
