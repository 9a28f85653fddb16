import AdaptiveLowpan.ContikiNode
import AdaptiveLowpan.EndToEnd
import AdaptiveLowpan.Logging

/-! # The node and the host cut a window alike

Both loops run over sessions that log what they seal, the host with a transport that keeps
its packets and the node with a CoAP stack that keeps its requests. They stay in step
from turn to turn. -/

namespace AdaptiveLowpan
open ByteWords CheckedMemory Slices

variable {D σ τ ω : Type}

def recordingRequest (request : BlockingRequest ω) : BlockingRequest (ω × List ContikiRequest) :=
  fun t message => ((request t.1 message).1, (request t.1 message).2, t.2 ++ [message])

def RequestSucceeds (request : BlockingRequest ω) : Prop :=
  ∀ t message, responseHandler (request t message).1 = true

def SealAdds (P : SecurityProvider σ) : Prop :=
  ∀ {context context' plaintext aad capacity record},
    P.sealFn context plaintext aad capacity = (.ok record, context') →
      record.length = plaintext.length + P.overhead

/-- What a block says about the transfer that it belongs to. -/
structure Announcement where
  number : UInt32
  more : UInt8
  blockSize : ℕ
  size1 : UInt32

def CoapBlock.announcement (block : CoapBlock) : Announcement :=
  ⟨block.blockNumber, block.more, coapBlockSize block.szx, block.size1⟩

def ContikiRequest.announcement (request : ContikiRequest) : Announcement :=
  ⟨request.block1Number, request.block1More, request.block1Size, request.size1⟩

/-- The packets and the requests announce the same blocks. -/
def AnnounceAlike (packets : List Bytes) (requests : List ContikiRequest) : Prop :=
  ∃ blocks : List CoapBlock, packets.map coapParseBlock1 = blocks.map .ok ∧
    blocks.map (·.announcement) = requests.map (·.announcement)

theorem AnnounceAlike.concat {packets : List Bytes} {requests : List ContikiRequest}
    (h : AnnounceAlike packets requests) {packet : Bytes} {block : CoapBlock}
    {request : ContikiRequest} (hparse : coapParseBlock1 packet = .ok block)
    (hsame : block.announcement = request.announcement) :
    AnnounceAlike (packets ++ [packet]) (requests ++ [request]) := by
  obtain ⟨blocks, hpackets, hblocks⟩ := h
  refine ⟨blocks ++ [block], ?_, ?_⟩
  · rw [List.map_append, List.map_append, hpackets, List.map_singleton, List.map_singleton, hparse]
  · rw [List.map_append, List.map_append, hblocks, List.map_singleton, List.map_singleton, hsame]

/-! ## One turn -/

/-- The two loops before block `i`. -/
structure Lockstep (plan : TransferPlan) (i : ℕ)
    (s : TransferState (σ × SessionLog) (τ × List Bytes))
    (n : NodeState (σ × SessionLog) (ω × List ContikiRequest)) : Prop where
  host : s.At plan i
  offset : n.representationOffset = s.offset
  number : n.blockNumber = UInt32.ofNat i
  security : n.security = s.security
  announced : AnnounceAlike s.transport.2 n.transport.2

section Turn

variable {P : SecurityProvider σ} {send : TransportSend τ} {request : BlockingRequest ω}
  {plan : TransferPlan} {i : ℕ} {s : TransferState (σ × SessionLog) (τ × List Bytes)}
  {n : NodeState (σ × SessionLog) (ω × List ContikiRequest)}

/-- The loop of the node goes on exactly where a block is left. -/
theorem Lockstep.goes_on_iff (h : Lockstep plan i s n) {overhead : ℕ} (hplan : plan.Valid overhead) :
    n.representationOffset < plan.representation.length ↔ i < plan.blockCount := by
  have hat : s.offset = min plan.representation.length (i * plan.plaintextCapacity) := h.host
  rw [h.offset, hat, hplan.lt_blockCount]
  omega

/-- The `more` flag that is derived from the bytes left is the one that is derived from
the block count. -/
theorem Lockstep.more_eq (h : Lockstep plan i s n) {overhead : ℕ} (hplan : plan.Valid overhead) :
    (if s.offset +
        (if plan.representation.length - s.offset < plan.plaintextCapacity then
          plan.representation.length - s.offset else plan.plaintextCapacity) <
      plan.representation.length then 1 else 0 : UInt8) =
      if i + 1 < plan.blockCount then 1 else 0 := by
  apply if_congr _ rfl rfl
  rw [offset_add_min plan.plaintextCapacity h.host, hplan.lt_blockCount]
  omega

/-- The bytes that are left, but at most a capacity, are the slice of the block. -/
theorem Lockstep.slice_eq (h : Lockstep plan i s n) :
    (plan.representation.drop s.offset).take
      (if plan.representation.length - s.offset < plan.plaintextCapacity then
        plan.representation.length - s.offset else plan.plaintextCapacity) = plan.slice i :=
  take_min_eq_slice plan.representation h.host

/-- Both build the associated data of a block from the same fields. -/
theorem TransferPlan.aadBlock_aad (plan : TransferPlan) (i : ℕ) :
    pipelineBuildAad (plan.aadBlock (UInt32.ofNat i) (if i + 1 < plan.blockCount then 1 else 0)) =
      plan.aad i := rfl

/-- What the node seals for block `i`, and that it stops where that fails. -/
theorem Lockstep.nodeTurn_error (h : Lockstep plan i s n) {overhead : ℕ}
    (hplan : plan.Valid overhead) {e : Stop Failure} {security : σ × SessionLog}
    (hseal : (loggedProvider P).sealFn s.security (plan.slice i) (plan.aad i) maxBlockSize =
      (.error e, security)) :
    nodeTurn (loggedProvider P) (recordingRequest request) plan n = (false, { n with security }) := by
  rw [nodeTurn]
  simp only [h.offset, h.number, h.security, h.more_eq hplan, h.slice_eq, plan.aadBlock_aad,
    securitySeal, hseal]

theorem Lockstep.nodeTurn_ok (h : Lockstep plan i s n) {overhead : ℕ} (hplan : plan.Valid overhead)
    (hrequest : RequestSucceeds request) {record : Bytes} {security : σ × SessionLog}
    (hseal : (loggedProvider P).sealFn s.security (plan.slice i) (plan.aad i) maxBlockSize =
      (.ok record, security)) :
    ∃ n', nodeTurn (loggedProvider P) (recordingRequest request) plan n = (true, n') ∧
      n'.representationOffset = min plan.representation.length ((i + 1) * plan.plaintextCapacity) ∧
      n'.blockNumber = UInt32.ofNat (i + 1) ∧ n'.security = security ∧
      n'.transport.2 = n.transport.2 ++ [plan.nodeRequest (UInt32.ofNat i)
        (if i + 1 < plan.blockCount then 1 else 0) record] := by
  have hack := hrequest n.transport.1 (plan.nodeRequest (UInt32.ofNat i)
    (if i + 1 < plan.blockCount then 1 else 0) record)
  have hnumber : UInt32.ofNat i + 1 = UInt32.ofNat (i + 1) := (UInt32.ofNat_add i 1).symm
  refine ⟨⟨security, s.offset + _, UInt32.ofNat i + 1, (request n.transport.1
    (plan.nodeRequest (UInt32.ofNat i) (if i + 1 < plan.blockCount then 1 else 0) record)).2,
    n.transport.2 ++ [_]⟩, ?_, offset_add_min plan.plaintextCapacity h.host, hnumber, rfl, rfl⟩
  rw [nodeTurn]
  simp only [h.offset, h.number, h.security, h.more_eq hplan, h.slice_eq, plan.aadBlock_aad,
    securitySeal, hseal, recordingRequest, hack]
  rfl

/-- A turn of both loops: the seal fails in both, or both go on to the next block. -/
theorem Lockstep.turn (h : Lockstep plan i s n) (hadds : SealAdds P) (hsend : SendSucceeds send)
    (hrequest : RequestSucceeds request) (hplan : plan.Valid P.overhead) (hszx : plan.szx ≤ 6)
    (hpath : ∃ c ∈ plan.uriPath, c ≠ slash) (hpathlen : plan.uriPath.length ≤ maxUriPath)
    (hi : i < plan.blockCount) (hnumber : plan.blockCount ≤ 1048576) :
    (∃ e s' n', sendBlock (loggedProvider P) (recordingSend send) plan i s = (.error e, s') ∧
      nodeTurn (loggedProvider P) (recordingRequest request) plan n = (false, n') ∧
      n'.security = s'.security ∧ AnnounceAlike s'.transport.2 n'.transport.2) ∨
    ∃ s' n', sendBlock (loggedProvider P) (recordingSend send) plan i s = (.ok (), s') ∧
      nodeTurn (loggedProvider P) (recordingRequest request) plan n = (true, n') ∧
      Lockstep plan (i + 1) s' n' := by
  cases hseal : (loggedProvider P).sealFn s.security (plan.slice i) (plan.aad i) maxBlockSize with
  | mk result security =>
    cases result with
    | error e =>
      left
      refine ⟨e, { s with security, nextMessageId := s.nextMessageId + 1 }, _, ?_,
        h.nodeTurn_error hplan hseal, rfl, h.announced⟩
      rw [sendBlock]
      simp only [securitySeal, h.slice_eq, TransferPlan.aad_eq, hseal]
    | ok record =>
      right
      have hunlogged : P.sealFn s.security.1 (plan.slice i) (plan.aad i) maxBlockSize =
          (.ok record, security.1) := securitySeal_unlogged hseal
      have hlogged : plan.Valid (loggedProvider P).overhead := hplan
      have hsend' : SendSucceeds (recordingSend send) := fun t packet => hsend t.1 packet
      obtain ⟨packet, s', hbuild, hturn, hat, hsecurity, htransport⟩ :=
        sendBlock_sealed hsend' hlogged hszx hpath hpathlen hi hnumber h.host hseal
          (hadds hunlogged)
      obtain ⟨n', hnode, hoffset, hblock, hsecurity', hrequests⟩ := h.nodeTurn_ok hplan hrequest hseal
      have hparse := coapParseBlock1_of_build (by change (0 : UInt8) < 4; decide) hbuild
      have hreceived := CoapBlock.received_eq_self (plan.more_sentBlock s.nextMessageId i record)
      have hpackets : s'.transport.2 = s.transport.2 ++ [packet] := congrArg Prod.snd htransport
      refine ⟨s', n', hturn, hnode, hat, ?_, hblock, hsecurity'.trans hsecurity.symm, ?_⟩
      · rw [hoffset]
        exact hat.symm
      · rw [hpackets, hrequests]
        refine h.announced.concat (hparse.trans (congrArg Except.ok hreceived)) ?_
        have hsize := hplan.blockSize_eq
        rw [ContikiRequest.announcement, TransferPlan.nodeRequest]
        simp only [hsize]
        rfl

/-! ## Whole windows -/

/-- The loops from block `i` to their ends, with as many turns as blocks are left. -/
theorem Lockstep.run (h : Lockstep plan i s n) (hadds : SealAdds P) (hsend : SendSucceeds send)
    (hrequest : RequestSucceeds request) (hplan : plan.Valid P.overhead) (hszx : plan.szx ≤ 6)
    (hpath : ∃ c ∈ plan.uriPath, c ≠ slash) (hpathlen : plan.uriPath.length ≤ maxUriPath)
    (hnumber : plan.blockCount ≤ 1048576) {count : ℕ} (hcount : i + count = plan.blockCount) :
    ∃ r s' n', sendBlocks (loggedProvider P) (recordingSend send) plan count i s = (r, s') ∧
      nodeLoop (loggedProvider P) (recordingRequest request) plan count n = some n' ∧
      n'.security = s'.security ∧ AnnounceAlike s'.transport.2 n'.transport.2 ∧
      (r = .ok () → s'.offset = plan.representation.length ∧
        n'.representationOffset = plan.representation.length) := by
  induction count generalizing i s n with
  | zero =>
    have hdone : ¬n.representationOffset < plan.representation.length := by
      rw [h.goes_on_iff hplan]
      omega
    have hat : s.offset = min plan.representation.length (i * plan.plaintextCapacity) := h.host
    have hoffset := h.offset
    refine ⟨.ok (), s, n, rfl, if_neg hdone, h.security, h.announced, fun _ => ?_⟩
    omega
  | succ count ih =>
    have hi : i < plan.blockCount := by omega
    have hgoes := (h.goes_on_iff hplan).mpr hi
    rw [sendBlocks, nodeLoop, if_pos hgoes]
    rcases h.turn hadds hsend hrequest hplan hszx hpath hpathlen hi hnumber with
      ⟨e, s', n', hturn, hnode, hsecurity, hannounced⟩ | ⟨s₁, n₁, hturn, hnode, hnext⟩
    · rw [hturn, hnode]
      exact ⟨.error e, s', n', rfl, rfl, hsecurity, hannounced, fun hok => by cases hok⟩
    · rw [hturn, hnode]
      exact ih hnext (by omega)

end Turn

/-- The host and the node plan a window that fits its buffer alike. -/
theorem planTransfer_of_size {overhead : ℕ} {config : AdaptiveConfig D} {window : EncodedWindow D}
    (hsize : overhead < coapBlockSize (config.blockSzx window.state))
    (hbuffer : window.representation.length ≤ maxRepresentation) :
    ∃ plan, planTransfer overhead config window = .ok plan ∧
      nodePlan overhead config window = some plan ∧ plan.szx ≤ 6 ∧
      plan.blockCount ≤ 1048576 := by
  have hszx : config.blockSzx window.state ≤ 6 := by
    apply UInt8.not_lt.mp
    intro hlarge
    rw [coapBlockSize, if_pos hlarge] at hsize
    omega
  have hexponent : (config.blockSzx window.state).toNat ≤ 6 := UInt8.le_iff_toNat_le.mp hszx
  have hblock : coapBlockSize (config.blockSzx window.state) ≤ 1024 := by
    rw [coapBlockSize, if_neg (UInt8.not_lt.mpr hszx), Nat.one_shiftLeft]
    exact Nat.pow_le_pow_right (by omega) (by omega : _ ≤ 10)
  have hrep : maxRepresentation = 1088 := rfl
  have hmax : maxBlockSize = 1024 := rfl
  have hcount := sliceCount_le (coapBlockSize (config.blockSzx window.state) - overhead)
    window.representation.length
  have hcount' : sliceCount (coapBlockSize (config.blockSzx window.state) - overhead)
    window.representation.length ≤ 2112 := by omega
  have htotal : sliceCount (coapBlockSize (config.blockSzx window.state) - overhead)
      window.representation.length * overhead ≤ 2112 * 1024 :=
    Nat.mul_le_mul hcount' (by omega)
  rw [sliceCount] at hcount' htotal
  rw [planTransfer, nodePlan]
  simp only
  rw [if_neg (by omega), if_neg (by omega), if_neg (by omega)]
  exact ⟨_, rfl, rfl, hszx, hcount'.trans (by omega)⟩

/-- What the host and the node have done with a window when their loops are over. -/
structure SegmentedAlike (P : SecurityProvider σ) (representation : Bytes) (r : Outcome Unit)
    (s : TransferState (σ × SessionLog) (τ × List Bytes))
    (n : NodeState (σ × SessionLog) (ω × List ContikiRequest)) : Prop where
  sealed : n.security.2.sealed = s.security.2.sealed
  announced : AnnounceAlike s.transport.2 n.transport.2
  consumed : SealSucceeds P → r = .ok () ∧ s.offset = representation.length ∧
    n.representationOffset = representation.length

/-- The loop of the host over a window, with its session and its transport recorded. -/
def hostRun (P : SecurityProvider σ) (send : TransportSend τ) (plan : TransferPlan) (security : σ)
    (messageId : UInt16) (t : τ) :
    Outcome Unit × TransferState (σ × SessionLog) (τ × List Bytes) :=
  sendBlocks (loggedProvider P) (recordingSend send) plan plan.blockCount 0
    ⟨(security, ⟨[], []⟩), messageId, 0, (t, [])⟩

/-- The loop of the node over a window, for at most so many turns. -/
def nodeRun (P : SecurityProvider σ) (request : BlockingRequest ω) (plan : TransferPlan)
    (turns : ℕ) (security : σ) (t : ω) :
    Option (NodeState (σ × SessionLog) (ω × List ContikiRequest)) :=
  nodeLoop (loggedProvider P) (recordingRequest request) plan turns
    ⟨(security, ⟨[], []⟩), 0, 0, (t, [])⟩

theorem sealSucceeds_logged {P : SecurityProvider σ} (h : SealSucceeds P) :
    SealSucceeds (loggedProvider P) := by
  intro context plaintext aad capacity hroom
  obtain ⟨record, context', hseal, hlength⟩ := h context.1 plaintext aad capacity hroom
  refine ⟨record, (context', { context.2 with
    sealed := context.2.sealed ++ [⟨plaintext, aad, record⟩] }), ?_, hlength⟩
  rw [loggedProvider]
  simp only [hseal]

/-- For every window in its buffer and every configuration with room in a block and a
segment in its path, the host and the node seal the same slices under the same associated
data and announce the same blocks, and consume the window where sealing succeeds. -/
theorem nodeRun_segments_alike {P : SecurityProvider σ} (hadds : SealAdds P)
    (config : AdaptiveConfig D) (window : EncodedWindow D)
    (hsize : P.overhead < coapBlockSize (config.blockSzx window.state))
    (hbuffer : window.representation.length ≤ maxRepresentation)
    (hpath : ∃ c ∈ config.uriPath.chars, c ≠ slash) {send : TransportSend τ}
    (hsend : SendSucceeds send) {request : BlockingRequest ω} (hrequest : RequestSucceeds request)
    (security : σ) (messageId : UInt16) (t : τ) (u : ω) :
    ∃ plan turns n, planTransfer P.overhead config window = .ok plan ∧
      nodePlan P.overhead config window = some plan ∧
      nodeRun P request plan turns security u = some n ∧
      SegmentedAlike P window.representation (hostRun P send plan security messageId t).1
        (hostRun P send plan security messageId t).2 n := by
  obtain ⟨plan, hplan, hnode, hszx, hnumber⟩ := planTransfer_of_size hsize hbuffer
  obtain ⟨hvalid, -, hrep, -, -, huri⟩ := planTransfer_eq_ok hplan
  have hpath' : ∃ c ∈ plan.uriPath, c ≠ slash := by
    rw [huri]
    exact hpath
  have hpathlen : plan.uriPath.length ≤ maxUriPath := by
    rw [huri]
    exact config.uriPath.length_le
  have hstart : Lockstep plan 0
      ⟨(security, ⟨[], []⟩), messageId, 0, (t, [])⟩ ⟨(security, ⟨[], []⟩), 0, 0, (u, [])⟩ :=
    ⟨by simp [TransferState.At], rfl, rfl, rfl, [], rfl, rfl⟩
  obtain ⟨r, s', n', hhost, hnode', hsecurity, hannounced, hconsumed⟩ :=
    hstart.run hadds hsend hrequest hvalid hszx hpath' hpathlen hnumber (Nat.zero_add _)
  refine ⟨plan, plan.blockCount, n', hplan, hnode, hnode', ?_⟩
  rw [hostRun, hhost]
  refine ⟨by rw [hsecurity], hannounced, ?_⟩
  intro hseal
  have hrecording : SendSucceeds (recordingSend send) := fun t packet => hsend t.1 packet
  have hlogged : plan.Valid (loggedProvider P).overhead := hvalid
  obtain ⟨s'', htotal⟩ := sendBlocks_total (sealSucceeds_logged hseal) hrecording hlogged hszx
    hpath' hpathlen hnumber (Nat.zero_add _) hstart.host
  have hok : r = .ok () := by
    have hsame := hhost.symm.trans htotal
    exact congrArg Prod.fst hsame
  obtain ⟨hoffset, hoffset'⟩ := hconsumed hok
  rw [hrep] at hoffset hoffset'
  exact ⟨hok, hoffset, hoffset'⟩

theorem sealAdds_testProvider : SealAdds testProvider :=
  fun h => (testLayer.seal_ok h).2.2.2

def goodWindow : EncodedWindow ℚ where
  windowId := 1
  state := .good
  stateProbability := fun _ => 1
  representation := List.replicate 44 7
  metadata := ⟨1, .good, 8, 1, 14, 0, 0, 0⟩

theorem nodeRun_segments_alike_good :
    ∃ plan turns n, planTransfer 25 smallConfig goodWindow = .ok plan ∧
      nodePlan 25 smallConfig goodWindow = some plan ∧
      nodeRun testProvider (fun _ _ => (some 68, ())) plan turns (securityTestPair 7).1 () = some n ∧
      SegmentedAlike testProvider goodWindow.representation
        (hostRun testProvider (fun t _ => (.ok, t)) plan (securityTestPair 7).1 1 ()).1
        (hostRun testProvider (fun t _ => (.ok, t)) plan (securityTestPair 7).1 1 ()).2 n :=
  nodeRun_segments_alike sealAdds_testProvider smallConfig goodWindow (by decide) (by decide)
    ⟨0x74, by decide, by decide⟩ (fun _ _ => rfl) (fun _ _ => rfl) (securityTestPair 7).1 1 () ()

/-- With a path of slashes the host stops after the first seal, and the node goes on. -/
theorem slashPath_segmented_differently :
    (∃ plan, planTransfer 25 slashPath goodWindow = .ok plan ∧
      nodePlan 25 slashPath goodWindow = some plan ∧
      (hostRun testProvider (fun t _ => (.ok, t)) plan (securityTestPair 7).1 1 ()).1 =
        fail .format ∧
      (hostRun testProvider (fun t _ => (.ok, t)) plan
        (securityTestPair 7).1 1 ()).2.security.2.sealed.length = 1 ∧
      (nodeRun testProvider (fun _ _ => (some 68, ())) plan 2 (securityTestPair 7).1 ()).map
        (fun n => (n.representationOffset, n.security.2.sealed.length)) = some (44, 2)) := by
  refine ⟨⟨1, List.replicate 44 7, 2, 42, [slash], 64, 39, 2, 94⟩, rfl, rfl, ?_, ?_, ?_⟩
  · decide +kernel
  · decide +kernel
  · decide +kernel

end AdaptiveLowpan
