import AdaptiveLowpan.EndToEnd

/-! # The loopback demonstration

The main loop gives every packet of the pipeline to a receiver on the same host and stops
at the first window that does not come back whole. -/

namespace AdaptiveLowpan
open ByteWords CheckedMemory CDouble CFloat

variable {F D σ : Type} [CDouble D] [CFloat F D]

/-- `loopback_t`. The flag tells whether a call has left its buffers. -/
structure Loopback (σ F D : Type) where
  receiver : Receiver σ
  out : DecodeTarget F D
  completeWindows : UInt32
  faulted : Bool

def loopbackSend (P : SecurityProvider σ) : TransportSend (Loopback σ F D) :=
  fun loopback packet =>
    match receiverAccept P loopback.receiver packet loopback.out with
    | (.ok .complete, receiver, out) =>
      (.ok, { loopback with receiver, out, completeWindows := loopback.completeWindows + 1 })
    | (.ok .ok, receiver, out) => (.ok, { loopback with receiver, out })
    | (.error (.result r), receiver, out) => (r.1, { loopback with receiver, out })
    | (.error .fault, receiver, out) => (.errIo, { loopback with receiver, out, faulted := true })

/-- What one step of the main loop starts from: the signal and the network parameters. -/
structure LoopbackInput (F D : Type) where
  source : List F
  metrics : NetworkMetrics D

structure LoopbackState (σ F D : Type) where
  pipeline : Pipeline D σ
  loopback : Loopback σ F D

/-- Why the main loop stops: the pipeline fails, or the window does not come back. -/
inductive LoopStop where
  | failed (e : Stop Failure)
  | unmatched

/-- One step of the main loop: the statistics that it prints, or why it stops. -/
def loopbackStep (P : SecurityProvider σ) (config : AdaptiveConfig D) (s : LoopbackState σ F D)
    (input : LoopbackInput F D) : Except LoopStop (PipelineStats D) × LoopbackState σ F D :=
  let before := s.loopback.completeWindows
  match pipelineProcess P s.pipeline input.source input.metrics (loopbackSend P) s.loopback with
  | (.error e, pipeline, loopback) => (.error (.failed e), ⟨pipeline, loopback⟩)
  | (.ok stats, pipeline, loopback) =>
    if loopback.completeWindows ≠ before + 1 ∨ loopback.out.sampleCount ≠ config.windowSize then
      (.error .unmatched, ⟨pipeline, loopback⟩)
    else (.ok stats, ⟨pipeline, loopback⟩)

/-- The main loop: what it has printed when it ends, and how it ends. -/
def loopbackRun (P : SecurityProvider σ) (config : AdaptiveConfig D) (s : LoopbackState σ F D) :
    List (LoopbackInput F D) →
      List (PipelineStats D) × Except LoopStop Unit × LoopbackState σ F D
  | [] => ([], .ok (), s)
  | input :: inputs =>
    match loopbackStep P config s input with
    | (.error stop, s) => ([], .error stop, s)
    | (.ok stats, s) =>
      let (rows, ended, s) := loopbackRun P config s inputs
      (stats :: rows, ended, s)

/-- What `memset` leaves in the fields that the receiver decodes into. -/
def clearedTarget : DecodeTarget F D :=
  ⟨List.replicate maxWindow zeroFloat, 0, some ⟨0, .good, 0, 0, 0, 0, lit 0, lit 0⟩⟩

def loopbackInit (P : SecurityProvider σ) (config : AdaptiveConfig D) (client server : σ) :
    Outcome (LoopbackState σ F D) :=
  match pipelineInit P config client with
  | .error e => .error e
  | .ok pipeline => .ok ⟨pipeline, ⟨receiverInit server, clearedTarget, 0, false⟩⟩

/-! ## One window -/

section Window

variable {P : SecurityProvider σ} {L : RecordLayer P} {plan : TransferPlan} {i : ℕ}

omit [CDouble D] [CFloat F D] in
/-- A turn depends on the send only at the packet that it builds. -/
theorem sendBlock_congr {τ : Type} {send send' : TransportSend τ} {s : TransferState σ τ}
    {record : Bytes} {security : σ} {packet : Bytes} (hat : s.At plan i)
    (hseal : P.sealFn s.security (plan.slice i) (plan.aad i) maxBlockSize = (.ok record, security))
    (hbuild : coapBuildBlock1 { plan.block s.nextMessageId i with payload := record } plan.uriPath
      maxCoapPacket = .ok packet) (hsend : send s.transport packet = send' s.transport packet) :
    sendBlock P send plan i s = sendBlock P send' plan i s := by
  have hslice : _ = plan.slice i := Slices.take_min_eq_slice plan.representation hat
  rw [sendBlock, sendBlock]
  simp only [securitySeal, hslice, TransferPlan.aad_eq, hseal, hbuild, hsend]

omit [CDouble D] [CFloat F D] in
theorem isBlockPacket_of_build {messageId : UInt16} {record packet : Bytes} {key : L.Key}
    {sequence : UInt64} (hrecord : L.IsRecord key (plan.slice i) (plan.aad i) record)
    (hnumber : recordSequence record = sequence)
    (hlength : record.length = (plan.slice i).length + P.overhead)
    (hbuild : coapBuildBlock1 { plan.block messageId i with payload := record } plan.uriPath
      maxCoapPacket = .ok packet) : IsBlockPacket L key plan i sequence packet := by
  refine ⟨messageId, record, ?_, hrecord, hnumber, hlength⟩
  have hparse : coapParseBlock1 packet = .ok (plan.sentBlock messageId i record).received :=
    coapParseBlock1_of_build (by change (0 : UInt8) < 4; decide) hbuild
  rwa [CoapBlock.received_eq_self (plan.more_sentBlock _ _ _)] at hparse

/-- The sender and the receiver of a loopback have one key, and no number is used up. -/
structure LoopbackReady (L : RecordLayer P) (security : σ) (loopback : Loopback σ F D) : Prop where
  keys : L.sealKey security = L.openKey loopback.receiver.security
  fresh : ∀ h ∈ L.highest loopback.receiver.security, h < L.sequence security
  unfaulted : loopback.faulted = false

/-- What the path and the sizes of a window must satisfy to be built into packets. -/
structure TransferPlan.Packable (overhead : ℕ) (plan : TransferPlan) : Prop
    extends plan.Bounded overhead where
  szx_le : plan.szx ≤ 6
  path : ∃ c ∈ plan.uriPath, c ≠ slash
  path_length : plan.uriPath.length ≤ maxUriPath
  blockCount_number : plan.blockCount ≤ 1048576

structure Loopback.Completes (loopback : Loopback σ F D) (out : DecodeTarget F D)
    (loopback' : Loopback σ F D) : Prop where
  out : loopback'.out = out
  completeWindows : loopback'.completeWindows = loopback.completeWindows + 1

def acknowledged {τ : Type} (send : TransportSend τ) : TransportSend τ :=
  fun t packet => (.ok, (send t packet).2)

/-- A seal that succeeds on every record of a window. -/
def SealsBlocks (P : SecurityProvider σ) : Prop :=
  ∀ context plaintext aad, plaintext.length + P.overhead ≤ maxBlockSize →
    aad.length ≤ maxBlockSize → ∃ record context',
      P.sealFn context plaintext aad maxBlockSize = (.ok record, context') ∧
        record.length = plaintext.length + P.overhead

omit [CDouble D] [CFloat F D] in
theorem SealSucceeds.sealsBlocks (h : SealSucceeds P) : SealsBlocks P :=
  fun context plaintext aad hroom _ => h context plaintext aad maxBlockSize hroom

theorem sendBlock_loopback (hseals : SealsBlocks P) (hplan : plan.Packable P.overhead)
    (hi : i < plan.blockCount) {s : TransferState σ (Loopback σ F D)} (hat : s.At plan i)
    (hready : LoopbackReady L s.security s.transport)
    (hholds : i = 0 ∨ s.transport.receiver.Holds plan i)
    (hwrap : (L.sequence s.security).toNat + 1 < 2 ^ 64) {out : DecodeTarget F D}
    (hdecode : codecDecode plan.representation s.transport.out = (.ok (), out)) :
    ∃ s', sendBlock P (loopbackSend P) plan i s = (.ok (), s') ∧ s'.At plan (i + 1) ∧
      LoopbackReady L s'.security s'.transport ∧
      (L.sequence s'.security).toNat = (L.sequence s.security).toNat + 1 ∧
      if i + 1 < plan.blockCount then
        s'.transport.receiver.Holds plan (i + 1) ∧ s'.transport.out = s.transport.out ∧
          s'.transport.completeWindows = s.transport.completeWindows
      else s.transport.Completes out s'.transport := by
  have hroom := hplan.length_slice_le i
  have hblock := hplan.blockSize_le
  have haad : (plan.aad i).length ≤ maxBlockSize := by
    rw [TransferPlan.aad, length_pipelineBuildAad]
    decide
  obtain ⟨record, security, hseal, hlength⟩ :=
    hseals s.security (plan.slice i) (plan.aad i) (by omega) haad
  obtain ⟨hrecord, hnumber, hnext, -⟩ := L.seal_ok hseal
  obtain ⟨hkey, -, -⟩ := L.seal_keeps hseal
  have hone : (L.sequence security).toNat = (L.sequence s.security).toNat + 1 := by
    rw [hnext, UInt64.toNat_add, UInt64.toNat_one]
    omega
  have hsends : SendSucceeds (acknowledged (loopbackSend (F := F) (D := D) P)) := fun _ _ => rfl
  obtain ⟨packet, s', hbuild, hturn, hat', hsecurity, htransport⟩ :=
    sendBlock_sealed hsends hplan.toValid hplan.szx_le hplan.path hplan.path_length hi
      hplan.blockCount_number hat hseal hlength
  have hpacket : IsBlockPacket L (L.openKey s.transport.receiver.security) plan i
      (L.sequence s.security) packet :=
    isBlockPacket_of_build (hready.keys ▸ hrecord) hnumber hlength hbuild
  obtain ⟨receiver, hholds', hkey', hhighest, haccept⟩ :=
    receiverAccept_next hplan.toBounded hi hpacket hready.fresh hholds s.transport.out
  have hfresh : ∀ h ∈ L.highest receiver.security, h < L.sequence security := by
    intro top htop
    rw [hhighest] at htop
    cases htop
    rw [UInt64.lt_iff_toNat_lt, hone]
    exact Nat.lt_succ_self _
  by_cases hmore : i + 1 < plan.blockCount
  · rw [if_pos hmore] at haccept
    have hsend : loopbackSend P s.transport packet = (.ok, { s.transport with receiver }) := by
      rw [loopbackSend, haccept]
    rw [acknowledged, hsend] at htransport
    refine ⟨s', ?_, hat', ⟨?_, ?_, ?_⟩, by rw [hsecurity, hone], ?_⟩
    · rw [← hturn]
      exact sendBlock_congr hat hseal hbuild (by rw [acknowledged, hsend])
    · rw [hsecurity, htransport, hkey, hkey', hready.keys]
    · rw [hsecurity, htransport]
      exact hfresh
    · rw [htransport]
      exact hready.unfaulted
    · rw [if_pos hmore, htransport]
      exact ⟨hholds', rfl, rfl⟩
  · have hwhole : plan.sentUpTo (i + 1) = plan.representation := by
      have hend : i + 1 = plan.blockCount := by omega
      rw [hend, hplan.sentUpTo_blockCount]
    rw [if_neg hmore, hwhole, hdecode] at haccept
    have hsend : loopbackSend P s.transport packet = (.ok, { s.transport with
        receiver := { receiver with active := false }, out,
        completeWindows := s.transport.completeWindows + 1 }) := by
      rw [loopbackSend, haccept]
    rw [acknowledged, hsend] at htransport
    refine ⟨s', ?_, hat', ⟨?_, ?_, ?_⟩, by rw [hsecurity, hone], ?_⟩
    · rw [← hturn]
      exact sendBlock_congr hat hseal hbuild (by rw [acknowledged, hsend])
    · rw [hsecurity, htransport, hkey, hkey', hready.keys]
    · rw [hsecurity, htransport]
      exact hfresh
    · rw [htransport]
      exact hready.unfaulted
    · rw [if_neg hmore, htransport]
      exact ⟨rfl, rfl⟩

theorem sendBlocks_loopback (hseals : SealsBlocks P) (hplan : plan.Packable P.overhead)
    {count : ℕ} (hcount : i + (count + 1) = plan.blockCount)
    {s : TransferState σ (Loopback σ F D)} (hat : s.At plan i)
    (hready : LoopbackReady L s.security s.transport)
    (hholds : i = 0 ∨ s.transport.receiver.Holds plan i)
    (hwrap : (L.sequence s.security).toNat + (count + 1) < 2 ^ 64) {out : DecodeTarget F D}
    (hdecode : codecDecode plan.representation s.transport.out = (.ok (), out)) :
    ∃ s', sendBlocks P (loopbackSend P) plan (count + 1) i s = (.ok (), s') ∧
      s.transport.Completes out s'.transport ∧ LoopbackReady L s'.security s'.transport ∧
      (L.sequence s'.security).toNat = (L.sequence s.security).toNat + (count + 1) := by
  induction count generalizing i s with
  | zero =>
    obtain ⟨s₁, hturn, -, hready₁, hsequence, hend⟩ :=
      sendBlock_loopback hseals hplan (by omega) hat hready hholds (by omega) hdecode
    rw [if_neg (by omega)] at hend
    refine ⟨s₁, ?_, hend, hready₁, hsequence⟩
    rw [sendBlocks, hturn]
    rfl
  | succ count ih =>
    obtain ⟨s₁, hturn, hat₁, hready₁, hsequence, hstored⟩ :=
      sendBlock_loopback hseals hplan (by omega) hat hready hholds (by omega) hdecode
    rw [if_pos (by omega)] at hstored
    obtain ⟨hholds₁, hout, hwindows⟩ := hstored
    obtain ⟨s', hrest, hcompletes, hready', hsequence'⟩ := ih (by omega) hat₁ hready₁
      (Or.inr hholds₁) (by omega) (hout ▸ hdecode)
    refine ⟨s', ?_, ⟨hcompletes.out, by rw [hcompletes.completeWindows, hwindows]⟩, hready',
      by omega⟩
    rw [sendBlocks, hturn]
    exact hrest

end Window

/-! ## The main loop -/

/-- What the main loop needs of one input: a full window, finite parameters, and a stored
scale that the decoder accepts. -/
structure LoopbackInput.Good (config : AdaptiveConfig D) (input : LoopbackInput F D) : Prop where
  length : input.source.length = config.windowSize
  finite : ∀ metric, isfinite (input.metrics metric) = true
  scale : ∀ state a, codecAnalyze input.source state config = .ok a → GoodScale F a.scale

/-- A configuration whose windows can be sent. -/
structure AdaptiveConfig.Sendable (config : AdaptiveConfig D) : Prop
    extends ConfigAccepted config where
  blockSzx_ne : ∀ state, config.blockSzx state ≠ 0
  path : ∃ c ∈ config.uriPath.chars, c ≠ slash

section Step

variable {P : SecurityProvider σ} {L : RecordLayer P} {config : AdaptiveConfig D}

def paddingProvider : SecurityProvider σ where
  sealFn := fun c plaintext _ _ => (.ok (plaintext ++ List.replicate securityOverhead 0), c)
  openFn := fun c _ _ _ => (fail .crypto, c)
  overhead := securityOverhead

omit [CDouble D] [CFloat F D] in
theorem sealSucceeds_padding : SealSucceeds (paddingProvider : SecurityProvider σ) := by
  intro context plaintext aad capacity _
  refine ⟨plaintext ++ List.replicate securityOverhead 0, context, rfl, ?_⟩
  rw [List.length_append, List.length_replicate]
  rfl

theorem exists_planned (hoverhead : P.overhead = securityOverhead) (hconfig : config.Sendable)
    {pipeline : Pipeline D σ} (hsame : pipeline.config = config)
    {input : LoopbackInput F D} (hinput : input.Good config) :
    ∃ window plan, Planned P.overhead pipeline input.source input.metrics window plan ∧
      plan.Packable P.overhead ∧ 0 < plan.blockCount ∧
      plan.representation = window.representation := by
  subst hsame
  -- the plan depends neither on the send nor on the seal
  have hquiet : SendSucceeds fun (t : Unit) (_ : Bytes) => (AdaptiveResult.ok, t) := fun _ _ => rfl
  obtain ⟨-, hcall⟩ := pipelineProcess_of_accepted (P := paddingProvider) hconfig.toConfigAccepted
    rfl sealSucceeds_padding hconfig.path hinput.length hinput.finite hquiet ()
  obtain ⟨stats, hok⟩ := hcall (hconfig.blockSzx_ne _)
  rcases hrun : pipelineProcess paddingProvider pipeline input.source input.metrics
    (fun (t : Unit) (_ : Bytes) => (AdaptiveResult.ok, t)) () with ⟨r, pipeline', t'⟩
  rw [hrun] at hok
  obtain rfl : r = .ok stats := hok
  rcases (pipelineProcess_cases hrun).2 with ⟨⟨e, he⟩, -⟩ | ⟨window, plan, -, -, hplanned, -⟩
  · cases he
  have hsame : (paddingProvider : SecurityProvider σ).overhead = P.overhead := hoverhead.symm
  rw [hsame] at hplanned
  obtain ⟨hbounded, hrep, -, hpos⟩ := hplanned.bounded
  obtain ⟨hvalid, -, -, hszx, -, huri⟩ := planTransfer_eq_ok hplanned.planned
  refine ⟨window, plan, hplanned, ⟨hbounded, ?_, ?_, ?_, ?_⟩, hpos, hrep⟩
  · rw [hszx]
    exact hconfig.blockSzx_le _
  · rw [huri]
    exact hconfig.path
  · rw [huri]
    exact pipeline.config.uriPath.length_le
  · have hcount := hbounded.blockCount_le
    have hlength : plan.representation.length ≤ 1088 := hbounded.length_le
    omega

/-- One call over the loopback, when the decoder accepts what the call encodes. -/
theorem pipelineProcess_of_decode (hseals : SealsBlocks P) {s : LoopbackState σ F D}
    {input : LoopbackInput F D} {window : EncodedWindow D} {plan : TransferPlan}
    (hplanned : Planned P.overhead s.pipeline input.source input.metrics window plan)
    (hpackable : plan.Packable P.overhead) (hpos : 0 < plan.blockCount)
    (hrep : plan.representation = window.representation)
    (hready : LoopbackReady L s.pipeline.security s.loopback)
    (hwrap : (L.sequence s.pipeline.security).toNat + maxRepresentation < 2 ^ 64)
    {out : DecodeTarget F D}
    (hdecode : codecDecode window.representation s.loopback.out = (.ok (), out)) :
    ∃ stats pipeline' loopback', pipelineProcess P s.pipeline input.source input.metrics
        (loopbackSend P) s.loopback = (.ok stats, pipeline', loopback') ∧
      stats.windowId = s.pipeline.nextWindowId ∧ stats.state = window.state ∧
      pipeline'.config = s.pipeline.config ∧
      pipeline'.nextWindowId = s.pipeline.nextWindowId + 1 ∧
      s.loopback.Completes out loopback' ∧ LoopbackReady L pipeline'.security loopback' ∧
      (L.sequence pipeline'.security).toNat ≤
        (L.sequence s.pipeline.security).toNat + maxRepresentation := by
  have hcount : plan.blockCount ≤ plan.representation.length := hpackable.blockCount_le
  have hlength : plan.representation.length ≤ maxRepresentation := hpackable.length_le
  rw [← hrep] at hdecode
  rcases hencode : pipelineEncode s.pipeline input.source input.metrics with ⟨r, encoded⟩
  obtain rfl : r = .ok window := by
    have hencoded := hplanned.encoded
    rw [hencode] at hencoded
    exact hencoded
  obtain ⟨hencodedConfig, hsecurity, -, -⟩ := pipelineEncode_keeps hencode
  obtain ⟨hwindowId, hnext, -⟩ := pipelineEncode_eq_ok hencode
  have hplan : planTransfer P.overhead encoded.config window = .ok plan := by
    rw [hencodedConfig]
    exact hplanned.planned
  obtain ⟨count, hcounts⟩ := Nat.exists_eq_add_of_le' hpos
  have hstart : TransferState.At (⟨encoded.security, encoded.nextMessageId, 0, s.loopback⟩ :
      TransferState σ (Loopback σ F D)) plan 0 := by simp [TransferState.At]
  have hready' : LoopbackReady L encoded.security s.loopback := by
    rw [hsecurity]
    exact hready
  have hroom : (L.sequence encoded.security).toNat + (count + 1) < 2 ^ 64 := by
    rw [hsecurity]
    omega
  obtain ⟨s', hloop, hcompletes, hready'', hsequence⟩ := sendBlocks_loopback hseals hpackable
    (by omega) hstart hready' (Or.inl rfl) hroom hdecode
  rw [pipelineProcess, hencode]
  simp only
  rw [hplan]
  simp only
  rw [hcounts, hloop]
  simp only
  refine ⟨_, _, _, rfl, hwindowId, rfl, hencodedConfig, hnext, hcompletes, hready'', ?_⟩
  change (L.sequence s'.security).toNat ≤ _
  change (L.sequence s'.security).toNat = (L.sequence encoded.security).toNat + _ at hsequence
  rw [hsecurity] at hsequence
  omega

/-- What the main loop keeps from step to step, after so many windows. -/
structure LoopbackState.Invariant (L : RecordLayer P) (config : AdaptiveConfig D) (windows : ℕ)
    (s : LoopbackState σ F D) : Prop where
  config : s.pipeline.config = config
  windowId : s.pipeline.nextWindowId = UInt32.ofNat (windows + 1)
  completeWindows : s.loopback.completeWindows = UInt32.ofNat windows
  buffer : s.loopback.out.samples.length = maxWindow
  ready : LoopbackReady L s.pipeline.security s.loopback

theorem LoopbackState.Invariant.step_of_decode {windows : ℕ} {s : LoopbackState σ F D}
    (h : s.Invariant L config windows) (hseals : SealsBlocks P) {input : LoopbackInput F D}
    {window : EncodedWindow D} {plan : TransferPlan}
    (hplanned : Planned P.overhead s.pipeline input.source input.metrics window plan)
    (hpackable : plan.Packable P.overhead) (hpos : 0 < plan.blockCount)
    (hrep : plan.representation = window.representation)
    (hwrap : (L.sequence s.pipeline.security).toNat + maxRepresentation < 2 ^ 64)
    {out : DecodeTarget F D}
    (hdecode : codecDecode window.representation s.loopback.out = (.ok (), out))
    (hcount : out.sampleCount = config.windowSize) (hbuffer : out.samples.length = maxWindow) :
    ∃ stats s', loopbackStep P config s input = (.ok stats, s') ∧
      stats.windowId = UInt32.ofNat (windows + 1) ∧ stats.state = window.state ∧
      s'.loopback.out = out ∧ s'.Invariant L config (windows + 1) ∧
      (L.sequence s'.pipeline.security).toNat ≤
        (L.sequence s.pipeline.security).toNat + maxRepresentation := by
  obtain ⟨stats, pipeline', loopback', hcall, hid, hstate, hsame, hnext, hcompletes, hready,
    hsequence⟩ := pipelineProcess_of_decode hseals hplanned hpackable hpos hrep h.ready hwrap hdecode
  have hwindows := hcompletes.completeWindows
  have hcheck : ¬(loopback'.completeWindows ≠ s.loopback.completeWindows + 1 ∨
      loopback'.out.sampleCount ≠ config.windowSize) := by
    rw [not_or, not_not, not_not, hcompletes.out]
    exact ⟨hwindows, hcount⟩
  refine ⟨stats, ⟨pipeline', loopback'⟩, ?_, hid.trans h.windowId, hstate, hcompletes.out,
    ⟨hsame.trans h.config, ?_, ?_, ?_, hready⟩, hsequence⟩
  · rw [loopbackStep]
    simp only [hcall]
    rw [if_neg hcheck]
  · rw [hnext, h.windowId]
    exact (UInt32.ofNat_add (windows + 1) 1).symm
  · rw [hwindows, h.completeWindows]
    exact (UInt32.ofNat_add windows 1).symm
  · rw [hcompletes.out]
    exact hbuffer

theorem LoopbackState.Invariant.step {windows : ℕ} {s : LoopbackState σ F D}
    (h : s.Invariant L config windows) (hoverhead : P.overhead = securityOverhead)
    (hseals : SealsBlocks P) (hbits : ∀ x : F, ofBits (toBits x) = x) (hconfig : config.Sendable)
    {input : LoopbackInput F D} (hinput : input.Good config)
    (hwrap : (L.sequence s.pipeline.security).toNat + maxRepresentation < 2 ^ 64) :
    ∃ stats s', loopbackStep P config s input = (.ok stats, s') ∧
      stats.windowId = UInt32.ofNat (windows + 1) ∧ s'.Invariant L config (windows + 1) ∧
      (L.sequence s'.pipeline.security).toNat ≤
        (L.sequence s.pipeline.security).toNat + maxRepresentation := by
  obtain ⟨window, plan, hplanned, hpackable, hpos, hrep⟩ :=
    exists_planned hoverhead hconfig h.config hinput
  have hbytes := hplanned.bytes
  rw [h.config] at hbytes
  have hgood : GoodScale F window.metadata.coefficientScale := by
    obtain ⟨a, ha, -, hmetadata, -⟩ := codecEncode_eq_ok hbytes
    rw [hmetadata]
    exact hinput.scale window.state a ha
  have hwindow : config.windowSize ≤ s.loopback.out.samples.length := by
    rw [h.buffer]
    exact hconfig.geometry.count_le
  obtain ⟨a, -, -, hround⟩ :=
    roundTrip_of_encode hconfig.toConfigAccepted hbits hbytes hgood s.loopback.out hwindow
  obtain ⟨samples, -, hkept, hdecode⟩ := hround.decode
  obtain ⟨stats, s', hstep, hid, -, -, hinv, hsequence⟩ := h.step_of_decode hseals hplanned
    hpackable hpos hrep hwrap hdecode rfl (hkept.trans h.buffer)
  exact ⟨stats, s', hstep, hid, hinv, hsequence⟩

theorem LoopbackState.Invariant.run {windows : ℕ} {s : LoopbackState σ F D}
    (h : s.Invariant L config windows) (hoverhead : P.overhead = securityOverhead)
    (hseals : SealsBlocks P) (hbits : ∀ x : F, ofBits (toBits x) = x) (hconfig : config.Sendable)
    (inputs : List (LoopbackInput F D)) (hinputs : ∀ input ∈ inputs, input.Good config)
    (hwrap : (L.sequence s.pipeline.security).toNat + maxRepresentation * inputs.length < 2 ^ 64) :
    ∃ rows s', loopbackRun P config s inputs = (rows, .ok (), s') ∧
      rows.map (·.windowId) =
        (List.range' (windows + 1) inputs.length).map UInt32.ofNat ∧
      s'.Invariant L config (windows + inputs.length) := by
  induction inputs generalizing windows s with
  | nil => exact ⟨[], s, rfl, rfl, h⟩
  | cons input inputs ih =>
    rw [List.length_cons, Nat.mul_succ] at hwrap
    have hfirst := (Nat.add_le_add_left (Nat.le_add_left maxRepresentation
      (maxRepresentation * inputs.length)) (L.sequence s.pipeline.security).toNat).trans_lt hwrap
    obtain ⟨stats, s₁, hstep, hid, hinv, hsequence⟩ :=
      h.step hoverhead hseals hbits hconfig (hinputs input List.mem_cons_self) hfirst
    have hnext : (L.sequence s₁.pipeline.security).toNat + maxRepresentation * inputs.length <
        2 ^ 64 := by
      generalize maxRepresentation * inputs.length = rest at hwrap ⊢
      omega
    obtain ⟨rows, s', hrest, hids, hinv'⟩ :=
      ih hinv (fun other hother => hinputs other (List.mem_cons_of_mem _ hother)) hnext
    refine ⟨stats :: rows, s', ?_, ?_, ?_⟩
    · rw [loopbackRun, hstep]
      simp only
      rw [hrest]
    · rw [List.map_cons, hid, hids, List.length_cons, List.range'_succ, List.map_cons]
    · rw [List.length_cons, Nat.add_comm inputs.length, ← Nat.add_assoc]
      exact hinv'

def loopbackStart (config : AdaptiveConfig D) (client server : σ) : LoopbackState σ F D :=
  ⟨⟨config, normalizerInit config.baselineAlpha config.baselineEpsilon, hmmInit config, client,
    1, 1⟩, ⟨receiverInit server, clearedTarget, 0, false⟩⟩

theorem loopbackInit_eq (hoverhead : P.overhead = securityOverhead) (client server : σ) :
    loopbackInit P config client server =
      .ok (loopbackStart config client server : LoopbackState σ F D) := by
  have hsealing : P.overhead ≠ 0 := by
    rw [hoverhead]
    decide
  rw [loopbackInit, pipelineInit, if_neg hsealing]
  rfl

theorem invariant_loopbackStart {client server : σ} (hkeys : L.sealKey client = L.openKey server)
    (hfresh : L.gap client server = 0) :
    (loopbackStart config client server : LoopbackState σ F D).Invariant L config 0 :=
  ⟨rfl, rfl, rfl, List.length_replicate, ⟨hkeys, RecordLayer.gap_eq_zero.mp hfresh, rfl⟩⟩

end Step

section Sample

/-- The check that the decoder accepts the scale of a window, whatever the state. -/
def acceptableScales (config : AdaptiveConfig ℚ) (source : List Single) : Bool :=
  AdaptiveState.all.all fun state =>
    (codecAnalyze source state config).toOption.all fun a =>
      CFloat.isfinite (ofDouble a.scale : Single) &&
        !decide ((toDouble (ofDouble a.scale : Single) : ℚ) ≤ lit 0)

theorem goodScale_of_acceptable {config : AdaptiveConfig ℚ} {source : List Single}
    (h : acceptableScales config source = true) (state : AdaptiveState) (a : Analysis ℚ)
    (ha : codecAnalyze source state config = .ok a) : GoodScale Single a.scale := by
  have hscale := List.all_eq_true.mp h state (mem_all state)
  rw [ha] at hscale
  change (_ && !decide _) = true at hscale
  rw [Bool.and_eq_true, Bool.not_eq_true', decide_eq_false_iff_not] at hscale
  exact hscale

end Sample

end AdaptiveLowpan
