import AdaptiveLowpan.Pipeline
import AdaptiveLowpan.Slices

/-! # The blocks of one window

A window is sent as the slices of its representation. One turn of the sending loop
seals one slice under the associated data of its block number and goes on at the
next slice; the loop's offset is always where the slice of its number starts. -/

namespace AdaptiveLowpan
open ByteWords CheckedMemory Slices

def TransferPlan.slice (plan : TransferPlan) (i : ℕ) : Bytes :=
  Slices.slice plan.plaintextCapacity plan.representation i

/-- The associated data of a block, to which its message id does not contribute. -/
def TransferPlan.aad (plan : TransferPlan) (i : ℕ) : Bytes := pipelineBuildAad (plan.block 0 i)

theorem TransferPlan.aad_eq (plan : TransferPlan) (messageId : UInt16) (i : ℕ) :
    pipelineBuildAad (plan.block messageId i) = plan.aad i := rfl

/-- What `planTransfer` guarantees of a plan. -/
structure TransferPlan.Valid (overhead : ℕ) (plan : TransferPlan) : Prop where
  blockSize_eq : plan.blockSize = coapBlockSize plan.szx
  blockSize_le : plan.blockSize ≤ maxBlockSize
  capacity_pos : 0 < plan.plaintextCapacity
  capacity_add : plan.plaintextCapacity + overhead = plan.blockSize
  blockCount_eq : plan.blockCount = sliceCount plan.plaintextCapacity plan.representation.length

variable {D σ τ : Type}

theorem planTransfer_eq_ok {overhead : ℕ} {config : AdaptiveConfig D} {window : EncodedWindow D}
    {plan : TransferPlan} (h : planTransfer overhead config window = .ok plan) :
    plan.Valid overhead ∧ plan.windowId = window.windowId ∧
      plan.representation = window.representation ∧ plan.szx = config.blockSzx window.state ∧
      plan.contentFormat = config.contentFormat ∧ plan.uriPath = config.uriPath.chars := by
  rw [planTransfer] at h
  simp only at h
  split at h
  · simp at h
  rename_i hsize
  split at h
  · simp at h
  · cases h
    exact ⟨⟨rfl, by simp only; omega, by simp only; omega, by simp only; omega, rfl⟩,
      rfl, rfl, rfl, rfl, rfl⟩

theorem TransferPlan.Valid.lt_blockCount {overhead : ℕ} {plan : TransferPlan}
    (h : plan.Valid overhead) {i : ℕ} :
    i < plan.blockCount ↔ i * plan.plaintextCapacity < plan.representation.length := by
  rw [h.blockCount_eq]
  exact lt_sliceCount_iff h.capacity_pos

theorem TransferPlan.Valid.length_slice_le {overhead : ℕ} {plan : TransferPlan}
    (h : plan.Valid overhead) (i : ℕ) : (plan.slice i).length + overhead ≤ plan.blockSize := by
  have hle := Slices.length_slice_le plan.plaintextCapacity plan.representation i
  have hadd := h.capacity_add
  rw [slice]
  omega

def TransferPlan.sentUpTo (plan : TransferPlan) (i : ℕ) : Bytes :=
  plan.representation.take (i * plan.plaintextCapacity)

theorem TransferPlan.sentUpTo_succ (plan : TransferPlan) (i : ℕ) :
    plan.sentUpTo i ++ plan.slice i = plan.sentUpTo (i + 1) :=
  take_append_slice plan.plaintextCapacity plan.representation i

theorem TransferPlan.Valid.sentUpTo_blockCount {overhead : ℕ} {plan : TransferPlan}
    (h : plan.Valid overhead) : plan.sentUpTo plan.blockCount = plan.representation := by
  rw [sentUpTo, h.blockCount_eq]
  exact take_sliceCount plan.representation h.capacity_pos

/-! ## One turn -/

def TransferState.At (s : TransferState σ τ) (plan : TransferPlan) (i : ℕ) : Prop :=
  s.offset = min plan.representation.length (i * plan.plaintextCapacity)

/-- What a turn does: it seals the slice, and either stops, or has built and sent the
packet around the record and stands at the next slice. -/
theorem sendBlock_cases {P : SecurityProvider σ} {send : TransportSend τ} {plan : TransferPlan}
    {i : ℕ} {s s' : TransferState σ τ} {r : Outcome Unit} (hat : s.At plan i)
    (h : sendBlock P send plan i s = (r, s')) :
    (∃ e, P.sealFn s.security (plan.slice i) (plan.aad i) maxBlockSize = (.error e, s'.security) ∧
      r = .error e) ∨
    ∃ record, P.sealFn s.security (plan.slice i) (plan.aad i) maxBlockSize =
        (.ok record, s'.security) ∧
      ((∃ e, r = .error e) ∨ r = .ok () ∧ s'.At plan (i + 1) ∧
        s'.nextMessageId = s.nextMessageId + 1 ∧
        ∃ packet, coapBuildBlock1 { plan.block s.nextMessageId i with payload := record }
            plan.uriPath maxCoapPacket = .ok packet ∧
          send s.transport packet = (.ok, s'.transport)) := by
  have hslice : (plan.representation.drop s.offset).take
      (if plan.representation.length - s.offset < plan.plaintextCapacity then
        plan.representation.length - s.offset else plan.plaintextCapacity) = plan.slice i :=
    take_min_eq_slice plan.representation hat
  have hnext := offset_add_min plan.plaintextCapacity hat
  rw [sendBlock] at h
  simp only [securitySeal, hslice, TransferPlan.aad_eq] at h
  split at h
  · rename_i e security hseal
    cases h
    exact Or.inl ⟨e, hseal, rfl⟩
  rename_i record security hseal
  refine Or.inr ⟨record, ?_⟩
  split at h
  · cases h
    exact ⟨hseal, Or.inl ⟨_, rfl⟩⟩
  split at h
  · cases h
    exact ⟨hseal, Or.inl ⟨_, rfl⟩⟩
  rename_i packet hbuild
  split at h
  · cases h
    exact ⟨hseal, Or.inl ⟨_, rfl⟩⟩
  · rename_i hsend
    cases h
    refine ⟨hseal, Or.inr ⟨rfl, hnext, rfl, packet, hbuild, ?_⟩⟩
    have hok := AdaptiveResult.toOutcome_eq_ok.mp hsend
    exact Prod.ext hok rfl

/-! ## One call -/

variable {F : Type} [CDouble D] [CFloat F D]

/-- Encoding touches neither the configuration nor the session. -/
theorem pipelineEncode_keeps {pipeline pipeline' : Pipeline D σ} {samples : List F}
    {metrics : NetworkMetrics D} {r : Outcome (EncodedWindow D)}
    (h : pipelineEncode pipeline samples metrics = (r, pipeline')) :
    pipeline'.config = pipeline.config ∧ pipeline'.security = pipeline.security ∧
      pipeline'.nextMessageId = pipeline.nextMessageId ∧
      (pipeline'.nextWindowId = pipeline.nextWindowId ∨
        pipeline'.nextWindowId = pipeline.nextWindowId + 1) := by
  rw [pipelineEncode] at h
  split at h
  · cases h
    exact ⟨rfl, rfl, rfl, Or.inl rfl⟩
  split at h
  · cases h
    exact ⟨rfl, rfl, rfl, Or.inl rfl⟩
  simp only at h
  split at h
  · cases h
    exact ⟨rfl, rfl, rfl, Or.inr rfl⟩
  · cases h
    exact ⟨rfl, rfl, rfl, Or.inr rfl⟩

/-- An encoded window has the next window id and the bytes of the codec. -/
theorem pipelineEncode_eq_ok {pipeline pipeline' : Pipeline D σ} {samples : List F}
    {metrics : NetworkMetrics D} {window : EncodedWindow D}
    (h : pipelineEncode pipeline samples metrics = (.ok window, pipeline')) :
    window.windowId = pipeline.nextWindowId ∧
      pipeline'.nextWindowId = pipeline.nextWindowId + 1 ∧
      codecEncode samples window.windowId window.state pipeline.config maxRepresentation =
        .ok (window.representation, window.metadata) := by
  rw [pipelineEncode] at h
  split at h
  · simp [fail] at h
  split at h
  · simp at h
  simp only at h
  split at h
  · simp at h
  · rename_i hencode
    cases h
    exact ⟨rfl, rfl, hencode⟩

theorem pipelineProcess_nextWindowId {P : SecurityProvider σ} {pipeline pipeline' : Pipeline D σ}
    {samples : List F} {metrics : NetworkMetrics D} {send : TransportSend τ} {t t' : τ}
    {r : Outcome (PipelineStats D)}
    (h : pipelineProcess P pipeline samples metrics send t = (r, pipeline', t')) :
    pipeline'.nextWindowId = (pipelineEncode pipeline samples metrics).2.nextWindowId := by
  rw [pipelineProcess] at h
  split at h
  · rename_i hencode
    cases h
    rw [hencode]
  rename_i hencode
  rw [hencode]
  split at h
  · cases h
    rfl
  simp only at h
  split at h
  · cases h
    rfl
  · cases h
    rfl

/-- What a call sends: the plan of the window it has encoded. -/
structure Planned (overhead : ℕ) (pipeline : Pipeline D σ) (samples : List F)
    (metrics : NetworkMetrics D) (window : EncodedWindow D) (plan : TransferPlan) : Prop where
  encoded : (pipelineEncode pipeline samples metrics).1 = .ok window
  windowId : window.windowId = pipeline.nextWindowId
  bytes : codecEncode samples window.windowId window.state pipeline.config maxRepresentation =
    .ok (window.representation, window.metadata)
  planned : planTransfer overhead pipeline.config window = .ok plan

/-- A call stops before it sends, or is the run of the loop over its blocks. -/
theorem pipelineProcess_cases {P : SecurityProvider σ} {pipeline pipeline' : Pipeline D σ}
    {samples : List F} {metrics : NetworkMetrics D} {send : TransportSend τ} {t t' : τ}
    {r : Outcome (PipelineStats D)}
    (h : pipelineProcess P pipeline samples metrics send t = (r, pipeline', t')) :
    pipeline'.config = pipeline.config ∧
    (((∃ e, r = .error e) ∧ pipeline'.security = pipeline.security ∧ t' = t ∧
        (pipeline'.nextWindowId = pipeline.nextWindowId ∨
          pipeline'.nextWindowId = pipeline.nextWindowId + 1)) ∨
      ∃ window plan result s', Planned P.overhead pipeline samples metrics window plan ∧
        sendBlocks P send plan plan.blockCount 0
          ⟨pipeline.security, pipeline.nextMessageId, 0, t⟩ = (result, s') ∧
        pipeline'.security = s'.security ∧ t' = s'.transport ∧
        pipeline'.nextWindowId = pipeline.nextWindowId + 1 ∧
        ((∃ stats, r = .ok stats) → result = .ok ())) := by
  rw [pipelineProcess] at h
  split at h
  · rename_i e encoded hencode
    cases h
    obtain ⟨hconfig, hsecurity, -, hid⟩ := pipelineEncode_keeps hencode
    exact ⟨hconfig, Or.inl ⟨⟨e, rfl⟩, hsecurity, rfl, hid⟩⟩
  rename_i window encoded hencode
  obtain ⟨hconfig, hsecurity, hmessage, hid⟩ := pipelineEncode_keeps hencode
  obtain ⟨hwindow, hnext, hbytes⟩ := pipelineEncode_eq_ok hencode
  split at h
  · rename_i e hplan
    cases h
    exact ⟨hconfig, Or.inl ⟨⟨e, rfl⟩, hsecurity, rfl, hid⟩⟩
  rename_i plan hplan
  rw [hconfig] at hplan
  have hplanned : Planned P.overhead pipeline samples metrics window plan :=
    ⟨congrArg Prod.fst hencode, hwindow, hbytes, hplan⟩
  simp only [hsecurity, hmessage] at h
  split at h
  · cases h
    exact ⟨hconfig, Or.inr ⟨window, plan, _, _, hplanned, rfl, rfl, rfl, hnext,
      fun ⟨stats, hstats⟩ => by cases hstats⟩⟩
  · rename_i hloop
    cases h
    exact ⟨hconfig, Or.inr ⟨window, plan, _, _, hplanned, rfl, rfl, rfl, hnext,
      fun _ => hloop⟩⟩

end AdaptiveLowpan
