import AdaptiveLowpan.Reception
import AdaptiveLowpan.Transmission

/-! # End-to-end delivery

The packets of one call, delivered in order and with nothing in between, take a
receiver in any state to the representation that the codec has encoded. -/

namespace AdaptiveLowpan
open ByteWords CheckedMemory CDouble CFloat

variable {F D σ τ : Type} [CDouble D] [CFloat F D] {P : SecurityProvider σ}

def acceptAll (P : SecurityProvider σ) (receiver : Receiver σ) (out : DecodeTarget F D) :
    List Bytes → List (Outcome Accepted) × Receiver σ × DecodeTarget F D
  | [] => ([], receiver, out)
  | packet :: packets =>
    match receiverAccept P receiver packet out with
    | (result, receiver, out) =>
      let (results, receiver, out) := acceptAll P receiver out packets
      (result :: results, receiver, out)

def completed (r : Outcome Unit) : Outcome Accepted := r.map fun _ => .complete

theorem lt_add_one_of_toNat {sequence : UInt64} {n : ℕ} (h : sequence.toNat + (n + 2) ≤ 2 ^ 64) :
    sequence < sequence + 1 ∧ (sequence + 1).toNat = sequence.toNat + 1 := by
  have hone : (sequence + 1).toNat = sequence.toNat + 1 := by
    rw [UInt64.toNat_add, UInt64.toNat_one]
    omega
  refine ⟨?_, hone⟩
  rw [UInt64.lt_iff_toNat_lt, hone]
  omega

/-- The blocks from `i` on, in order: every packet but the last is stored, and the last
completes the representation and decodes it. -/
theorem acceptAll_blockPackets {L : RecordLayer P} {plan : TransferPlan} {i : ℕ}
    {receiver : Receiver σ} {sequence : UInt64} {packet : Bytes} {packets : List Bytes}
    (hplan : plan.Bounded P.overhead)
    (hpackets : BlockPackets L (L.openKey receiver.security) plan i sequence (packet :: packets))
    (hcount : i + (packets.length + 1) = plan.blockCount)
    (hwrap : sequence.toNat + (packets.length + 1) ≤ 2 ^ 64)
    (hfresh : ∀ h ∈ L.highest receiver.security, h < sequence)
    (hholds : i = 0 ∨ receiver.Holds plan i) (out : DecodeTarget F D) :
    ∃ receiver', acceptAll P receiver out (packet :: packets) =
        (List.replicate packets.length (.ok .ok) ++
            [completed (codecDecode plan.representation out).1],
          receiver', (codecDecode plan.representation out).2) ∧
      receiver'.representation = plan.representation := by
  induction packets generalizing i receiver sequence packet with
  | nil =>
    cases hpackets with
    | cons head tail =>
      have hlast : i + 1 = plan.blockCount := hcount
      obtain ⟨receiver', hnext, -, -, haccept⟩ :=
        receiverAccept_next hplan (by omega) head hfresh hholds out
      have hwhole : plan.sentUpTo (i + 1) = plan.representation := by
        rw [hlast, hplan.sentUpTo_blockCount]
      rw [if_neg (by omega), hwhole] at haccept
      have hrep : receiver'.representation = plan.representation :=
        hnext.representation.trans hwhole
      cases hdecoded : codecDecode plan.representation out with
      | mk d out' =>
        rw [hdecoded] at haccept
        cases d with
        | error e =>
          refine ⟨receiver', ?_, hrep⟩
          rw [acceptAll, haccept]
          rfl
        | ok u =>
          refine ⟨{ receiver' with active := false }, ?_, hrep⟩
          rw [acceptAll, haccept]
          rfl
  | cons packet' packets ih =>
    cases hpackets with
    | cons head tail =>
      simp only [List.length_cons] at hcount hwrap
      obtain ⟨hlt, hone⟩ := lt_add_one_of_toNat hwrap
      obtain ⟨receiver', hnext, hkey, hhighest, haccept⟩ :=
        receiverAccept_next hplan (by omega) head hfresh hholds out
      rw [if_pos (by omega)] at haccept
      rw [← hkey] at tail
      obtain ⟨receiver'', hall, hrep⟩ := ih tail (by omega) (by omega)
        (by
          intro h hh
          rw [hhighest] at hh
          cases hh
          exact hlt)
        (Or.inr hnext)
      refine ⟨receiver'', ?_, hrep⟩
      rw [acceptAll, haccept]
      simp only
      rw [hall]
      rfl

/-- The packets of a call that returns `ADAPTIVE_OK`, delivered in order to a receiver
in any state whose session is the peer of the pipeline's and has accepted no number from
the next one on. -/
theorem pipelineProcess_delivered (config : AdaptiveConfig D) (security : TestContext)
    (pipeline pipeline' : Pipeline D TestContext) (samples : List F) (metrics : NetworkMetrics D)
    (send : TransportSend τ) (t t' : τ) (packets : List Bytes) (stats : PipelineStats D)
    (receiver : Receiver TestContext) (out : DecodeTarget F D)
    (hconfig : configValidate config = .ok ())
    (hreach : PipelineReachable F testProvider config security pipeline)
    (hcall : pipelineProcess testProvider pipeline samples metrics (recordingSend send) (t, []) =
      (.ok stats, pipeline', t', packets))
    (hpeer : receiver.security.rxKey = pipeline.security.txKey)
    (hfresh : receiver.security.rxInitialized = true →
      receiver.security.rxHighest < pipeline.security.txSequence)
    (hwrap : pipeline.security.txSequence.toNat + packets.length ≤ 2 ^ 64)
    (hbits : ∀ x : F, ofBits (toBits x) = x) :
    ∃ window last receiver' out',
      (pipelineEncode pipeline samples metrics).1 = .ok window ∧
      codecEncode samples pipeline.nextWindowId window.state config maxRepresentation =
        .ok (window.representation, window.metadata) ∧
      acceptAll testProvider receiver out packets =
        (List.replicate (packets.length - 1) (.ok .ok) ++ [last], receiver', out') ∧
      receiver'.representation = window.representation ∧
      (GoodScale F window.metadata.coefficientScale → config.windowSize ≤ out.samples.length →
        last = .ok .complete ∧
          out'.metadata.map (·.windowId) = out.metadata.map fun _ => pipeline.nextWindowId) := by
  obtain ⟨window, plan, hplanned, hlength, hblocks, -, -⟩ :=
    pipelineProcess_recording testLayer hcall
  obtain ⟨hbounded, hrep, -, hpos⟩ := hplanned.bounded
  have hbytes := hplanned.bytes
  rw [hplanned.windowId, hreach.config_eq] at hbytes
  cases packets with
  | nil =>
    rw [List.length_nil] at hlength
    omega
  | cons packet packets =>
    have hhighest : ∀ h ∈ receiver.security.highest, h < pipeline.security.txSequence := by
      intro h hh
      rw [TestContext.highest] at hh
      split at hh
      · rename_i hinit
        cases hh
        exact hfresh hinit
      · cases hh
    have hblocks' : BlockPackets testLayer (testLayer.openKey receiver.security) plan 0
        (testLayer.sequence pipeline.security) (packet :: packets) := by
      have hkey : testLayer.openKey receiver.security = testLayer.sealKey pipeline.security := hpeer
      rw [hkey]
      exact hblocks
    obtain ⟨receiver', hall, hrep'⟩ := acceptAll_blockPackets hbounded hblocks'
      (by rw [List.length_cons] at hlength; omega) hwrap hhighest (Or.inl rfl) out
    refine ⟨window, _, receiver', _, hplanned.encoded, hbytes, hall, hrep'.trans hrep, ?_⟩
    intro hscale hcapacity
    obtain ⟨a, -, -, hround⟩ := roundTrip_of_encode (configAccepted_of_validate hconfig) hbits
      hbytes hscale out hcapacity
    obtain ⟨samples', -, -, hdecode⟩ := hround.decode
    rw [hrep, hdecode]
    refine ⟨rfl, ?_⟩
    rw [Option.map_map]
    rfl

/-- The small configuration with blocks of 64 bytes, of which 39 are plaintext. -/
def twoBlocks : AdaptiveConfig ℚ := { smallConfig with blockSzx := fun _ => 2 }

def smallWindow : List Single := [1, 2, -1, 0, 0, 5, 3, 2].map Single.ofRat

def recordedCall : Outcome (PipelineStats ℚ) × Pipeline ℚ TestContext × Unit × List Bytes :=
  pipelineProcess testProvider (initialPipeline twoBlocks) smallWindow (fun _ => 1)
    (recordingSend fun t _ => (.ok, t)) ((), [])

def firstPacket : Bytes := recordedCall.2.2.2.headD []

def secondPacket : Bytes := recordedCall.2.2.2.getD 1 []

theorem recordedCall_eq :
    ∃ stats pipeline', recordedCall = (.ok stats, pipeline', (), [firstPacket, secondPacket]) := by
  obtain ⟨hok, hpackets⟩ : recordedCall.1.toBool = true ∧
      recordedCall.2.2.2 = [firstPacket, secondPacket] := by
    decide +kernel
  generalize recordedCall = call at hok hpackets ⊢
  rcases call with ⟨e | stats, pipeline', ⟨⟩, packets⟩
  · cases hok
  · exact ⟨stats, pipeline', by rw [← hpackets]⟩

/-- The peer of the initial pipeline, in the middle of another transfer. -/
def dirtyReceiver : Receiver TestContext where
  security := (securityTestPair 7).2
  representation := [1, 2, 3]
  nextBlock := 5
  token := [0, 0, 0, 9]
  active := true

def smallTarget : DecodeTarget Single ℚ := ⟨smallWindow, 0, some ⟨0, .good, 0, 0, 0, 0, 0, 0⟩⟩

theorem pipelineProcess_delivered_twoBlocks :
    ∃ window last receiver' out',
      (pipelineEncode (initialPipeline twoBlocks) smallWindow (fun _ => 1)).1 = .ok window ∧
      codecEncode smallWindow 1 window.state twoBlocks maxRepresentation =
        .ok (window.representation, window.metadata) ∧
      acceptAll testProvider dirtyReceiver smallTarget [firstPacket, secondPacket] =
        (List.replicate 1 (.ok .ok) ++ [last], receiver', out') ∧
      receiver'.representation = window.representation ∧
      (GoodScale Single window.metadata.coefficientScale →
        twoBlocks.windowSize ≤ smallTarget.samples.length →
        last = .ok .complete ∧ out'.metadata.map (·.windowId) = some 1) := by
  have hvalid : configValidate twoBlocks = .ok () := by decide +kernel
  obtain ⟨stats, pipeline', hcall⟩ := recordedCall_eq
  rw [recordedCall] at hcall
  exact pipelineProcess_delivered twoBlocks (securityTestPair 7).1 (initialPipeline twoBlocks)
    pipeline' smallWindow (fun _ => 1) (fun t _ => (.ok, t)) () () [firstPacket, secondPacket]
    stats dirtyReceiver smallTarget hvalid (.init rfl) hcall rfl
    (fun hinit => absurd hinit (by decide)) (by decide) (fun _ => rfl)

end AdaptiveLowpan
