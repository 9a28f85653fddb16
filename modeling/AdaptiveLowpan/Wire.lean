import AdaptiveLowpan.EndToEnd
import AdaptiveLowpan.Logging

/-! # What one window puts on the wire

A call that returns `ADAPTIVE_OK` is repeated over a session that logs what it seals and
a transport that keeps its packets. The packets are the blocks of the representation, and
their payloads are the sealed records. -/

namespace AdaptiveLowpan
open ByteWords CheckedMemory Slices

/-- The packets that a call sends, and what it seals for them. -/
structure Traffic where
  packets : List Bytes
  sealed : List Sealed

variable {D σ τ : Type}

def Pipeline.logged (pipeline : Pipeline D σ) : Pipeline D (σ × SessionLog) :=
  { pipeline with security := (pipeline.security, ⟨[], []⟩) }

def pipelineTraffic {F : Type} [CDouble D] [CFloat F D] (P : SecurityProvider σ)
    (pipeline : Pipeline D σ) (samples : List F) (metrics : NetworkMetrics D)
    (send : TransportSend τ) (sendContext : τ) : Traffic :=
  let call := pipelineProcess (loggedProvider P) pipeline.logged samples metrics
    (recordingSend send) (sendContext, [])
  ⟨call.2.2.2, call.2.1.security.2.sealed⟩

/-! ## The loop -/

/-- Blocks from `i` on, and the log entries of their records. -/
inductive SentBlocks (overhead : ℕ) (plan : TransferPlan) :
    ℕ → List CoapBlock → List Sealed → Prop where
  | nil {i} : SentBlocks overhead plan i [] []
  | cons {i messageId record blocks entries}
      (hlength : record.length = (plan.slice i).length + overhead)
      (tail : SentBlocks overhead plan (i + 1) blocks entries) :
      SentBlocks overhead plan i (plan.sentBlock messageId i record :: blocks)
        (⟨plan.slice i, plan.aad i, record⟩ :: entries)

section Blocks

variable {overhead : ℕ} {plan : TransferPlan} {i : ℕ} {blocks : List CoapBlock}
  {entries : List Sealed}

theorem SentBlocks.length_eq (h : SentBlocks overhead plan i blocks entries) :
    entries.length = blocks.length := by
  induction h with
  | nil => rfl
  | cons _ _ ih => rw [List.length_cons, List.length_cons, ih]

theorem SentBlocks.payloads (h : SentBlocks overhead plan i blocks entries) :
    blocks.map (·.payload) = entries.map (·.record) := by
  induction h with
  | nil => rfl
  | cons _ _ ih =>
    rw [List.map_cons, List.map_cons, ih]
    rfl

/-- The sealed plaintexts go on where the earlier slices end. -/
theorem SentBlocks.flatten (h : SentBlocks overhead plan i blocks entries) :
    plan.sentUpTo i ++ (entries.map (·.plaintext)).flatten =
      plan.sentUpTo (i + entries.length) := by
  induction h with
  | nil => rw [List.map_nil, List.flatten_nil, List.append_nil, List.length_nil, Nat.add_zero]
  | @cons i messageId record blocks entries _ tail ih =>
    rw [List.map_cons, List.flatten_cons, ← List.append_assoc, plan.sentUpTo_succ, ih,
      List.length_cons, Nat.add_right_comm, Nat.add_assoc]

theorem SentBlocks.sum_payloads (h : SentBlocks overhead plan i blocks entries) :
    (blocks.map (·.payload.length)).sum =
      (entries.map (·.plaintext)).flatten.length + blocks.length * overhead := by
  induction h with
  | nil => simp
  | @cons i messageId record blocks entries hlength tail ih =>
    have hpayload : (plan.sentBlock messageId i record).payload.length =
        (plan.slice i).length + overhead := hlength
    simp only [List.map_cons, List.sum_cons, List.flatten_cons, List.length_append,
      List.length_cons, ih, hpayload, Nat.add_mul, Nat.one_mul]
    omega

theorem SentBlocks.get (h : SentBlocks overhead plan i blocks entries) {k : ℕ} {block : CoapBlock}
    (hk : blocks[k]? = some block) :
    ∃ messageId record, block = plan.sentBlock messageId (i + k) record ∧
      record.length = (plan.slice (i + k)).length + overhead := by
  induction h generalizing k with
  | nil => cases hk
  | @cons i messageId record blocks entries hlength tail ih =>
    cases k with
    | zero =>
      cases hk
      exact ⟨messageId, record, rfl, hlength⟩
    | succ k =>
      obtain ⟨messageId', record', hblock, hlength'⟩ := ih hk
      rw [Nat.add_right_comm] at hblock hlength'
      exact ⟨messageId', record', hblock, hlength'⟩

end Blocks

variable {P : SecurityProvider σ}

theorem sendBlock_traffic (L : RecordLayer P) {send : TransportSend τ} {plan : TransferPlan}
    {i : ℕ} {s s' : TransferState (σ × SessionLog) (τ × List Bytes)} (hat : s.At plan i)
    (h : sendBlock (loggedProvider P) (recordingSend send) plan i s = (.ok (), s')) :
    s'.At plan (i + 1) ∧ ∃ messageId record packet,
      record.length = (plan.slice i).length + P.overhead ∧
      coapParseBlock1 packet = .ok (plan.sentBlock messageId i record) ∧
      s'.transport.2 = s.transport.2 ++ [packet] ∧
      s'.security.2.sealed = s.security.2.sealed ++ [⟨plan.slice i, plan.aad i, record⟩] := by
  rcases sendBlock_cases hat h with ⟨e, -, herror⟩ | ⟨record, hseal, ⟨e, herror⟩ | hok⟩
  · cases herror
  · cases herror
  obtain ⟨-, hat', -, packet, hbuild, hsend⟩ := hok
  have hunlogged : P.sealFn s.security.1 (plan.slice i) (plan.aad i) maxBlockSize =
      (.ok record, s'.security.1) := securitySeal_unlogged hseal
  obtain ⟨-, -, -, hlength⟩ := L.seal_ok hunlogged
  have hparse := coapParseBlock1_of_build (by change (0 : UInt8) < 4; decide) hbuild
  have hreceived := CoapBlock.received_eq_self (plan.more_sentBlock s.nextMessageId i record)
  refine ⟨hat', s.nextMessageId, record, packet, hlength, hparse.trans ?_, ?_, ?_⟩
  · exact congrArg Except.ok hreceived
  · have htransport := (Prod.mk.inj hsend).2
    rw [← htransport]
  · rw [loggedSeal_ok hseal]

/-- The loop that succeeds sends its blocks and logs their records. -/
theorem sendBlocks_traffic (L : RecordLayer P) {send : TransportSend τ} {plan : TransferPlan}
    {count i : ℕ} {s s' : TransferState (σ × SessionLog) (τ × List Bytes)} (hat : s.At plan i)
    (h : sendBlocks (loggedProvider P) (recordingSend send) plan count i s = (.ok (), s')) :
    ∃ packets blocks entries, s'.transport.2 = s.transport.2 ++ packets ∧
      s'.security.2.sealed = s.security.2.sealed ++ entries ∧
      packets.map coapParseBlock1 = blocks.map .ok ∧ blocks.length = count ∧
      SentBlocks P.overhead plan i blocks entries := by
  induction count generalizing i s with
  | zero =>
    cases h
    exact ⟨[], [], [], by simp, by simp, rfl, rfl, .nil⟩
  | succ count ih =>
    rw [sendBlocks] at h
    split at h
    · cases h
    rename_i s₁ hturn
    obtain ⟨hat₁, messageId, record, packet, hlength, hparse, hsent, hsealed⟩ :=
      sendBlock_traffic L hat hturn
    obtain ⟨packets, blocks, entries, hsent', hsealed', hparse', hcount, hblocks⟩ := ih hat₁ h
    refine ⟨packet :: packets, plan.sentBlock messageId i record :: blocks, _ :: entries, ?_, ?_,
      ?_, by rw [List.length_cons, hcount], .cons hlength hblocks⟩
    · rw [hsent', hsent, List.append_assoc, List.singleton_append]
    · rw [hsealed', hsealed, List.append_assoc, List.singleton_append]
    · rw [List.map_cons, List.map_cons, hparse, hparse']

/-! ## One call -/

/-- The wire format of a window: `blocks` are the packets as they are parsed. -/
structure OnTheWire (windowId : UInt32) (szx : UInt8) (representation : Bytes)
    (traffic : Traffic) (blocks : List CoapBlock) : Prop where
  parsed : traffic.packets.map coapParseBlock1 = blocks.map .ok
  count : blocks.length = sliceCount (2 ^ (szx.toNat + 4) - 25) representation.length
  fields : ∀ i block, blocks[i]? = some block → block.blockNumber.toNat = i ∧
    block.more = (if i + 1 < blocks.length then 1 else 0) ∧ block.szx = szx ∧
    block.token = writeU32Be windowId
  payload_full : ∀ i block, blocks[i]? = some block → i + 1 < blocks.length →
    block.payload.length = 2 ^ (szx.toNat + 4)
  payload_last : ∀ i block, blocks[i]? = some block → i + 1 = blocks.length →
    26 ≤ block.payload.length ∧ block.payload.length ≤ 2 ^ (szx.toNat + 4)
  size1 : ∀ block ∈ blocks, block.size1.toNat = (blocks.map (·.payload.length)).sum
  records : blocks.map (·.payload) = traffic.sealed.map (·.record)
  plaintexts : (traffic.sealed.map (·.plaintext)).flatten = representation

theorem TransferPlan.Valid.blockSize_pow {overhead : ℕ} {plan : TransferPlan}
    (h : plan.Valid overhead) : plan.blockSize = 2 ^ (plan.szx.toNat + 4) := by
  have hsize := h.blockSize_eq
  have hpos := h.capacity_pos
  have hadd := h.capacity_add
  rw [coapBlockSize] at hsize
  split at hsize
  · omega
  · rw [hsize, Nat.one_shiftLeft]

theorem planTransfer_totalProtected {overhead : ℕ} {config : AdaptiveConfig D}
    {window : EncodedWindow D} {plan : TransferPlan}
    (h : planTransfer overhead config window = .ok plan) :
    plan.totalProtected = plan.representation.length + plan.blockCount * overhead ∧
      plan.totalProtected ≤ 4294967295 := by
  rw [planTransfer] at h
  simp only at h
  split at h
  · cases h
  split at h
  · cases h
  · rename_i hsmall
    cases h
    exact ⟨rfl, Nat.not_lt.mp hsmall⟩

theorem SentBlocks.onTheWire {plan : TransferPlan} {traffic : Traffic} {blocks : List CoapBlock}
    (hplan : plan.Bounded 25)
    (htotal : plan.totalProtected = plan.representation.length + plan.blockCount * 25)
    (hsmall : plan.totalProtected ≤ 4294967295)
    (hparsed : traffic.packets.map coapParseBlock1 = blocks.map .ok)
    (hcount : blocks.length = plan.blockCount)
    (h : SentBlocks 25 plan 0 blocks traffic.sealed) :
    OnTheWire plan.windowId plan.szx plan.representation traffic blocks := by
  have hsize := hplan.blockSize_pow
  have hadd := hplan.capacity_add
  have hcapacity : 2 ^ (plan.szx.toNat + 4) - 25 = plan.plaintextCapacity := by omega
  have hentries := h.length_eq
  have hflatten : (traffic.sealed.map (·.plaintext)).flatten = plan.representation := by
    have hall := h.flatten
    rw [Nat.zero_add, hentries, hcount, hplan.sentUpTo_blockCount] at hall
    rw [← hall, TransferPlan.sentUpTo, Nat.zero_mul, List.take_zero, List.nil_append]
  have hblock {i : ℕ} {block : CoapBlock} (hi : blocks[i]? = some block) :
      ∃ messageId record, block = plan.sentBlock messageId i record ∧
        record.length = (plan.slice i).length + 25 := by
    have hget := h.get hi
    rw [Nat.zero_add] at hget
    exact hget
  have hlt {i : ℕ} {block : CoapBlock} (hi : blocks[i]? = some block) : i < plan.blockCount := by
    rw [← hcount]
    exact (List.getElem?_eq_some_iff.mp hi).1
  refine ⟨hparsed, ?_, ?_, ?_, ?_, ?_, h.payloads, hflatten⟩
  · rw [hcount, hcapacity, hplan.blockCount_eq]
  · intro i block hi
    obtain ⟨messageId, record, rfl, -⟩ := hblock hi
    have hbound := hplan.blockCount_lt
    have hilt := hlt hi
    refine ⟨?_, ?_, rfl, rfl⟩
    · change (UInt32.ofNat i).toNat = i
      rw [UInt32.toNat_ofNat', Nat.mod_eq_of_lt (by omega)]
    · rw [hcount]
      rfl
  · intro i block hi hmore
    obtain ⟨messageId, record, rfl, hlength⟩ := hblock hi
    have hslice : (plan.slice i).length = plan.plaintextCapacity :=
      length_slice hplan.capacity_pos (by rw [← hplan.blockCount_eq, ← hcount]; exact hmore)
    change record.length = _
    omega
  · intro i block hi hlast
    obtain ⟨messageId, record, rfl, hlength⟩ := hblock hi
    have hslice := hplan.length_slice_le i
    have hslice_pos := hplan.length_slice_pos (hlt hi)
    change 26 ≤ record.length ∧ record.length ≤ _
    omega
  · intro block hmem
    obtain ⟨i, hi⟩ := List.mem_iff_getElem?.mp hmem
    obtain ⟨messageId, record, rfl, -⟩ := hblock hi
    change (UInt32.ofNat plan.totalProtected).toNat = _
    rw [UInt32.toNat_ofNat', Nat.mod_eq_of_lt (by omega), htotal, h.sum_payloads, hflatten, hcount]

section Call

variable {F : Type} [CDouble D] [CFloat F D]

/-- Logging and keeping the packets does not change the outcome of a call. -/
theorem pipelineProcess_logged (pipeline : Pipeline D σ) (samples : List F)
    (metrics : NetworkMetrics D) (send : TransportSend τ) (t : τ) :
    (pipelineProcess (loggedProvider P) pipeline.logged samples metrics (recordingSend send)
      (t, [])).1 = (pipelineProcess P pipeline samples metrics send t).1 := by
  have hlogged := pipelineProcess_unlogged (P := P) pipeline.logged samples metrics
    (recordingSend send) (t, [])
  have hunlogged : pipeline.logged.unlogged = pipeline := rfl
  rw [hunlogged] at hlogged
  rw [pipelineProcess_recordingSend pipeline samples metrics send t [], hlogged]

/-- A call that returns `ADAPTIVE_OK` puts the window that it has encoded on the wire, for
every record layer that adds 25 bytes to a plaintext. -/
theorem pipelineProcess_onTheWire (L : RecordLayer P) (pipeline pipeline' : Pipeline D σ)
    (samples : List F) (metrics : NetworkMetrics D) (send : TransportSend τ) (t t' : τ)
    (stats : PipelineStats D) (hoverhead : P.overhead = 25)
    (hcall : pipelineProcess P pipeline samples metrics send t = (.ok stats, pipeline', t')) :
    ∃ window blocks, (pipelineEncode pipeline samples metrics).1 = .ok window ∧
      OnTheWire pipeline.nextWindowId (pipeline.config.blockSzx window.state)
        window.representation (pipelineTraffic P pipeline samples metrics send t) blocks := by
  have hok := pipelineProcess_logged (P := P) pipeline samples metrics send t
  rw [hcall] at hok
  rw [pipelineTraffic]
  generalize hrun : pipelineProcess (loggedProvider P) pipeline.logged samples metrics
    (recordingSend send) (t, []) = run at hok ⊢
  obtain ⟨r, last, t₁, packets⟩ := run
  obtain rfl : r = .ok stats := hok
  rcases (pipelineProcess_cases hrun).2 with ⟨⟨e, he⟩, -⟩ | ⟨window, plan, result, s', hplanned,
    hloop, hsecurity, htransport, -, hresult⟩
  · cases he
  obtain rfl := hresult ⟨stats, rfl⟩
  have hencoded : (pipelineEncode pipeline samples metrics).1 = .ok window := by
    have hsame := pipelineEncode_unlogged pipeline.logged samples metrics
    exact (congrArg Prod.fst hsame).trans hplanned.encoded
  obtain ⟨hbounded, hrep, hid, -⟩ := hplanned.bounded
  obtain ⟨-, -, -, hszx, -⟩ := planTransfer_eq_ok hplanned.planned
  obtain ⟨htotal, hsmall⟩ := planTransfer_totalProtected hplanned.planned
  have hlogged : (loggedProvider P).overhead = 25 := hoverhead
  rw [hlogged] at hbounded htotal
  obtain ⟨sent, blocks, entries, hsent, hsealed, hparsed, hcount, hblocks⟩ :=
    sendBlocks_traffic L (by simp [TransferState.At]) hloop
  rw [hoverhead] at hblocks
  have hpackets : packets = sent := by
    have hkept := congrArg Prod.snd htransport
    rw [hsent] at hkept
    exact hkept
  have hentries : last.security.2.sealed = entries := by
    rw [hsecurity, hsealed]
    rfl
  have hwindow : plan.windowId = pipeline.nextWindowId := hid.trans hplanned.windowId
  have hwire : OnTheWire plan.windowId plan.szx plan.representation ⟨sent, entries⟩ blocks :=
    SentBlocks.onTheWire hbounded htotal hsmall hparsed hcount hblocks
  rw [hwindow, hszx, hrep] at hwire
  rw [hpackets, hentries]
  exact ⟨window, blocks, hencoded, hwire⟩

end Call

theorem pipelineProcess_onTheWire_twoBlocks :
    ∃ window blocks,
      (pipelineEncode (initialPipeline twoBlocks) smallWindow (fun _ => 1)).1 = .ok window ∧
      OnTheWire 1 (twoBlocks.blockSzx window.state) window.representation
        (pipelineTraffic testProvider (initialPipeline twoBlocks) smallWindow (fun _ => 1)
          (recordingSend fun t _ => (.ok, t)) ((), [])) blocks := by
  obtain ⟨stats, pipeline', hcall⟩ := recordedCall_eq
  exact pipelineProcess_onTheWire testLayer (initialPipeline twoBlocks) pipeline' smallWindow
    (fun _ => 1) (recordingSend fun t _ => (.ok, t)) ((), []) ((), [firstPacket, secondPacket])
    stats rfl hcall

end AdaptiveLowpan
