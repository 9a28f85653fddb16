import AdaptiveLowpan.CoapBuilding
import AdaptiveLowpan.RecordLayer
import AdaptiveLowpan.Transfer

/-! # The packets of one window

A call that returns `ADAPTIVE_OK` has sent one packet for each slice of the
representation, in order and under consecutive sequence numbers. -/

namespace AdaptiveLowpan
open ByteWords CheckedMemory

variable {σ τ : Type} {P : SecurityProvider σ}

def recordingSend (send : TransportSend τ) : TransportSend (τ × List Bytes) := fun t packet =>
  ((send t.1 packet).1, (send t.1 packet).2, t.2 ++ [packet])

def TransferPlan.sentBlock (plan : TransferPlan) (messageId : UInt16) (i : ℕ) (record : Bytes) :
    CoapBlock :=
  { plan.block messageId i with payload := record }

/-- A packet with block `i` of a plan, sealed under `key` with the number `sequence`. -/
def IsBlockPacket (L : RecordLayer P) (key : L.Key) (plan : TransferPlan) (i : ℕ)
    (sequence : UInt64) (packet : Bytes) : Prop :=
  ∃ messageId record,
    coapParseBlock1 packet = .ok (plan.sentBlock messageId i record) ∧
    L.IsRecord key (plan.slice i) (plan.aad i) record ∧ recordSequence record = sequence ∧
    record.length = (plan.slice i).length + P.overhead

inductive BlockPackets (L : RecordLayer P) (key : L.Key) (plan : TransferPlan) :
    ℕ → UInt64 → List Bytes → Prop where
  | nil {i sequence} : BlockPackets L key plan i sequence []
  | cons {i sequence packet packets} (head : IsBlockPacket L key plan i sequence packet)
      (tail : BlockPackets L key plan (i + 1) (sequence + 1) packets) :
      BlockPackets L key plan i sequence (packet :: packets)

theorem CoapBlock.received_eq_self {block : CoapBlock} (h : block.more = 0 ∨ block.more = 1) :
    block.received = block := by
  rcases block with ⟨type, code, messageId, token, blockNumber, more, szx, contentFormat, size1,
    payload⟩
  rcases h with rfl | rfl
  · rfl
  · rfl

theorem TransferPlan.more_sentBlock (plan : TransferPlan) (messageId : UInt16) (i : ℕ)
    (record : Bytes) : (plan.sentBlock messageId i record).more = 0 ∨
      (plan.sentBlock messageId i record).more = 1 := by
  by_cases hmore : i + 1 < plan.blockCount
  · exact Or.inr (if_pos hmore)
  · exact Or.inl (if_neg hmore)

theorem sendBlock_recording (L : RecordLayer P) {send : TransportSend τ} {plan : TransferPlan}
    {i : ℕ} {s s' : TransferState σ (τ × List Bytes)} (hat : s.At plan i)
    (h : sendBlock P (recordingSend send) plan i s = (.ok (), s')) :
    s'.At plan (i + 1) ∧ L.sealKey s'.security = L.sealKey s.security ∧
      L.sequence s'.security = L.sequence s.security + 1 ∧
      ∃ packet, s'.transport.2 = s.transport.2 ++ [packet] ∧
        IsBlockPacket L (L.sealKey s.security) plan i (L.sequence s.security) packet := by
  rcases sendBlock_cases hat h with ⟨e, -, herror⟩ | ⟨record, hseal, ⟨e, herror⟩ | hok⟩
  · cases herror
  · cases herror
  obtain ⟨-, hat', -, packet, hbuild, hsend⟩ := hok
  obtain ⟨hrecord, hnumber, hnext, hlen⟩ := L.seal_ok hseal
  obtain ⟨hkey, -, -⟩ := L.seal_keeps hseal
  have htransport : s'.transport = ((send s.transport.1 packet).2, s.transport.2 ++ [packet]) :=
    (Prod.mk.inj hsend).2.symm
  refine ⟨hat', hkey, hnext, packet, by rw [htransport], s.nextMessageId, record, ?_, hrecord,
    hnumber, hlen⟩
  have hparse : coapParseBlock1 packet =
      .ok (plan.sentBlock s.nextMessageId i record).received :=
    coapParseBlock1_of_build (by change (0 : UInt8) < 4; decide) hbuild
  rw [CoapBlock.received_eq_self (plan.more_sentBlock _ _ _)] at hparse
  exact hparse

theorem sendBlocks_recording (L : RecordLayer P) {send : TransportSend τ} {plan : TransferPlan}
    {count i : ℕ} {s s' : TransferState σ (τ × List Bytes)} (hat : s.At plan i)
    (h : sendBlocks P (recordingSend send) plan count i s = (.ok (), s')) :
    L.sealKey s'.security = L.sealKey s.security ∧
      L.sequence s'.security = L.sequence s.security + UInt64.ofNat count ∧
      ∃ packets, s'.transport.2 = s.transport.2 ++ packets ∧ packets.length = count ∧
        BlockPackets L (L.sealKey s.security) plan i (L.sequence s.security) packets := by
  induction count generalizing i s with
  | zero =>
    cases h
    exact ⟨rfl, by simp, [], by simp, rfl, .nil⟩
  | succ count ih =>
    rw [sendBlocks] at h
    split at h
    · cases h
    rename_i s₁ hturn
    obtain ⟨hat₁, hkey₁, hnext₁, packet, hpacket, hblock⟩ := sendBlock_recording L hat hturn
    obtain ⟨hkey, hnext, packets, hpackets, hlen, hblocks⟩ := ih hat₁ h
    refine ⟨hkey.trans hkey₁, ?_, packet :: packets, ?_, by rw [List.length_cons, hlen], ?_⟩
    · rw [hnext, hnext₁, UInt64.ofNat_add, UInt64.add_assoc, UInt64.add_comm 1]
      rfl
    · rw [hpackets, hpacket, List.append_assoc, List.singleton_append]
    · rw [hkey₁, hnext₁] at hblocks
      exact .cons hblock hblocks

variable {F D : Type} [CDouble D] [CFloat F D]

/-- A call that succeeds sends the blocks of the window it has encoded. -/
theorem pipelineProcess_recording (L : RecordLayer P) {pipeline pipeline' : Pipeline D σ}
    {samples : List F} {metrics : NetworkMetrics D} {send : TransportSend τ} {t t' : τ}
    {packets : List Bytes} {stats : PipelineStats D}
    (h : pipelineProcess P pipeline samples metrics (recordingSend send) (t, []) =
      (.ok stats, pipeline', t', packets)) :
    ∃ window plan, Planned P.overhead pipeline samples metrics window plan ∧
      packets.length = plan.blockCount ∧
      BlockPackets L (L.sealKey pipeline.security) plan 0 (L.sequence pipeline.security) packets ∧
      L.sealKey pipeline'.security = L.sealKey pipeline.security ∧
      L.sequence pipeline'.security =
        L.sequence pipeline.security + UInt64.ofNat packets.length := by
  rcases (pipelineProcess_cases h).2 with ⟨⟨e, he⟩, -⟩ | ⟨window, plan, result, s', hplanned,
    hloop, hsecurity, htransport, -, hok⟩
  · cases he
  obtain rfl := hok ⟨stats, rfl⟩
  obtain ⟨hkey, hnext, sent, hsent, hlen, hblocks⟩ := sendBlocks_recording L
    (by simp [TransferState.At]) hloop
  have hpackets : packets = sent := by
    rw [← htransport] at hsent
    simpa using hsent
  subst hpackets
  exact ⟨window, plan, hplanned, hlen, hblocks, by rw [hsecurity, hkey],
    by rw [hsecurity, hnext, hlen]⟩

/-! ## Keeping the packets changes nothing else -/

def TransferState.forget (s : TransferState σ (τ × List Bytes)) : TransferState σ τ :=
  { s with transport := s.transport.1 }

omit [CDouble D] [CFloat F D] in
theorem sendBlock_recordingSend (send : TransportSend τ) (plan : TransferPlan) (i : ℕ)
    (s : TransferState σ (τ × List Bytes)) :
    sendBlock P send plan i s.forget =
      ((sendBlock P (recordingSend send) plan i s).1,
        (sendBlock P (recordingSend send) plan i s).2.forget) := by
  rcases s with ⟨context, messageId, offset, t, packets⟩
  change sendBlock P send plan i ⟨context, messageId, offset, t⟩ = _
  rw [sendBlock, sendBlock]
  simp only
  rcases securitySeal P context _ _ maxBlockSize with ⟨e | record, security⟩
  · rfl
  simp only
  by_cases hlen : record.length > plan.blockSize ∨
      ((plan.block messageId i).more ≠ 0 ∧ record.length ≠ plan.blockSize)
  · rw [if_pos hlen, if_pos hlen]
    rfl
  rw [if_neg hlen, if_neg hlen]
  rcases coapBuildBlock1 _ plan.uriPath maxCoapPacket with e | packet
  · rfl
  simp only [recordingSend]
  rcases (send t packet).1.toOutcome with e | ⟨⟩
  · rfl
  · rfl

omit [CDouble D] [CFloat F D] in
theorem sendBlocks_recordingSend (send : TransportSend τ) (plan : TransferPlan) (count i : ℕ)
    (s : TransferState σ (τ × List Bytes)) :
    sendBlocks P send plan count i s.forget =
      ((sendBlocks P (recordingSend send) plan count i s).1,
        (sendBlocks P (recordingSend send) plan count i s).2.forget) := by
  induction count generalizing i s with
  | zero => rfl
  | succ count ih =>
    rw [sendBlocks, sendBlocks, sendBlock_recordingSend]
    rcases sendBlock P (recordingSend send) plan i s with ⟨e | ⟨⟩, s₁⟩
    · rfl
    · exact ih (i + 1) s₁

/-- The call over `send` is the call that also keeps the packets. -/
theorem pipelineProcess_recordingSend (pipeline : Pipeline D σ) (samples : List F)
    (metrics : NetworkMetrics D) (send : TransportSend τ) (t : τ) (packets : List Bytes) :
    pipelineProcess P pipeline samples metrics send t =
      ((pipelineProcess P pipeline samples metrics (recordingSend send) (t, packets)).1,
        (pipelineProcess P pipeline samples metrics (recordingSend send) (t, packets)).2.1,
        (pipelineProcess P pipeline samples metrics (recordingSend send) (t, packets)).2.2.1) := by
  rw [pipelineProcess, pipelineProcess]
  rcases pipelineEncode pipeline samples metrics with ⟨e | window, encoded⟩
  · rfl
  simp only
  rcases planTransfer P.overhead encoded.config window with e | plan
  · rfl
  simp only
  have hloop := sendBlocks_recordingSend (P := P) send plan plan.blockCount 0
    ⟨encoded.security, encoded.nextMessageId, 0, (t, packets)⟩
  simp only [TransferState.forget] at hloop
  rw [hloop]
  rcases sendBlocks P (recordingSend send) plan plan.blockCount 0
    ⟨encoded.security, encoded.nextMessageId, 0, (t, packets)⟩ with ⟨e | ⟨⟩, s⟩
  · rfl
  · rfl

end AdaptiveLowpan
