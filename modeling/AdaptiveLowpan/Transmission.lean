import AdaptiveLowpan.CoapCapacity
import AdaptiveLowpan.CodecRoundTrip
import AdaptiveLowpan.RecordFrames
import AdaptiveLowpan.Transfer

/-! # What an accepted configuration transmits

Every component accepts what the validator admits, except that a block must be
larger than the overhead of a record and the path must have a segment. -/

namespace AdaptiveLowpan
open ByteWords CheckedMemory CDouble CFloat Slices

/-! ## Encoding -/

theorem ConfigAccepted.geometry {D : Type} {config : AdaptiveConfig D} (h : ConfigAccepted config) :
    Geometry config.windowSize config.waveletLevels.toNat := by
  have hlevels : config.waveletLevels.toNat < 64 := UInt32.lt_iff_toNat_lt.mp h.levels_lt
  have hpos : 0 < config.waveletLevels.toNat := by
    apply Nat.pos_of_ne_zero
    intro h0
    exact h.levels_ne (UInt32.toNat_inj.mp h0)
  have hpower : (config.windowSize).isPowerOfTwo := by
    have hp := h.powerOfTwo
    rw [isPowerOfTwo, decide_eq_true_iff] at hp
    exact Nat.ne_zero_and_sub_one_eq_zero_iff_isPowerOfTwo.mp hp
  obtain ⟨k, hk⟩ := hpower
  have hfinest := h.finest
  refine ⟨h.window_le, hpos, hlevels, hfinest, ?_⟩
  -- a quotient of at least eight leaves at least three more halvings
  have hle : config.waveletLevels.toNat ≤ k := by
    rw [hk, Nat.shiftRight_eq_div_pow] at hfinest
    by_contra hlt
    have hpow : 2 ^ k ≤ 2 ^ (config.waveletLevels.toNat - 1) :=
      Nat.pow_le_pow_right (by omega) (by omega)
    have hdiv : 2 ^ k / 2 ^ (config.waveletLevels.toNat - 1) ≤ 1 := by
      apply Nat.div_le_of_le_mul
      omega
    omega
  rw [hk]
  exact Nat.mod_eq_zero_of_dvd (Nat.pow_dvd_pow 2 hle)

variable {F D σ τ : Type} [CDouble D] [CFloat F D]

/-- An accepted configuration encodes every window, into at most 1052 bytes. -/
theorem codecEncode_total {config : AdaptiveConfig D} (hconfig : ConfigAccepted config)
    {samples : List F} (hsamples : samples.length = config.windowSize) (windowId : UInt32)
    (state : AdaptiveState) :
    ∃ output metadata, codecEncode samples windowId state config maxRepresentation =
      .ok (output, metadata) ∧ 28 ≤ output.length ∧ output.length ≤ 1052 := by
  have hgeometry := hconfig.geometry
  have hwindow : config.windowSize ≤ 256 := hconfig.window_le
  have hrep : maxRepresentation = 1088 := rfl
  have hmax : maxWindow = 256 := rfl
  have hu16 : uint16Max = 65535 := rfl
  obtain ⟨coefficients, hforward, hcount⟩ := db4Forward_total samples
    (List.replicate maxWindow zeroFloat) hgeometry hsamples.ge (le_length_scratch hwindow)
  obtain ⟨a, ha⟩ : ∃ a, codecAnalyze samples state config = .ok a :=
    ⟨_, codecAnalyze_of_forward (hconfig.quantBits_ge state) (hconfig.quantBits_le state) hsamples
      hwindow hforward (hcount.trans hsamples)⟩
  obtain ⟨-, hvalid⟩ := codecAnalyze_valid (hconfig.quantBits_ge state)
    (hconfig.quantBits_le state) ha
  have hnonzero := nonzeroCount_le a.quantized
  rw [hvalid.length_quantized] at hnonzero
  rw [codecEncode, ha, ok_bind]
  simp only
  rw [if_neg (by simp only [codecHeaderBytes]; omega)]
  refine ⟨_, _, rfl, ?_, ?_⟩
  · simp only [List.length_append, length_codecHeader, length_writeU32, length_pairStream]
    omega
  · simp only [List.length_append, length_codecHeader, length_writeU32, length_pairStream]
    omega

/-! ## Sending -/

/-- A seal that succeeds whenever the record fits, and adds the overhead. -/
def SealSucceeds (P : SecurityProvider σ) : Prop :=
  ∀ context plaintext aad capacity, plaintext.length + P.overhead ≤ capacity →
    ∃ record context', P.sealFn context plaintext aad capacity = (.ok record, context') ∧
      record.length = plaintext.length + P.overhead

def SendSucceeds (send : TransportSend τ) : Prop := ∀ t packet, (send t packet).1 = .ok

/-- A turn whose seal succeeds builds its packet and goes on. -/
theorem sendBlock_sealed {P : SecurityProvider σ} {send : TransportSend τ} {plan : TransferPlan}
    (hsend : SendSucceeds send) (hplan : plan.Valid P.overhead)
    (hszx : plan.szx ≤ 6) (hpath : ∃ c ∈ plan.uriPath, c ≠ slash)
    (hpathlen : plan.uriPath.length ≤ maxUriPath) {i : ℕ} (hi : i < plan.blockCount)
    (hnumber : plan.blockCount ≤ 1048576) {s : TransferState σ τ} (hat : s.At plan i)
    {record : Bytes} {security : σ}
    (hrecord : P.sealFn s.security (plan.slice i) (plan.aad i) maxBlockSize =
      (.ok record, security)) (hrlen : record.length = (plan.slice i).length + P.overhead) :
    ∃ packet s', coapBuildBlock1 { plan.block s.nextMessageId i with payload := record }
        plan.uriPath maxCoapPacket = .ok packet ∧
      sendBlock P send plan i s = (.ok (), s') ∧ s'.At plan (i + 1) ∧
      s'.security = security ∧ s'.transport = (send s.transport packet).2 := by
  have hslice : (plan.representation.drop s.offset).take
      (if plan.representation.length - s.offset < plan.plaintextCapacity then
        plan.representation.length - s.offset else plan.plaintextCapacity) = plan.slice i :=
    take_min_eq_slice plan.representation hat
  have hlen := hplan.length_slice_le i
  have hblock := hplan.blockSize_le
  -- a block that is followed by another carries a full slice
  have hfull : (plan.block s.nextMessageId i).more ≠ 0 → record.length = plan.blockSize := by
    intro hmore
    have hlt : i + 1 < plan.blockCount := by
      by_contra hge
      exact hmore (if_neg hge)
    have hslen : (plan.slice i).length = plan.plaintextCapacity :=
      length_slice hplan.capacity_pos (hplan.blockCount_eq ▸ hlt)
    have hadd := hplan.capacity_add
    omega
  have hbuildable : Buildable { plan.block s.nextMessageId i with payload := record } := by
    refine ⟨by simp only [TransferPlan.block, length_writeU32Be]; omega, hszx, ?_⟩
    rw [UInt32.le_iff_toNat_le]
    change (UInt32.ofNat i).toNat ≤ 1048575
    rw [UInt32.toNat_ofNat']
    omega
  obtain ⟨packet, hpacket⟩ := coapBuildBlock1_total hbuildable rfl hpath hpathlen
    (by simp only; omega)
  refine ⟨packet, ⟨security, s.nextMessageId + 1, s.offset + _, (send s.transport packet).2⟩,
    hpacket, ?_, offset_add_min _ hat, rfl, rfl⟩
  rw [sendBlock]
  simp only [securitySeal, hslice, TransferPlan.aad_eq, hrecord]
  rw [if_neg (by
    simp only [not_or]
    refine ⟨by omega, ?_⟩
    rintro ⟨hmore, hne⟩
    exact hne (hfull hmore))]
  rw [hpacket]
  simp only
  rw [hsend]
  rfl

theorem sendBlock_total {P : SecurityProvider σ} {send : TransportSend τ} {plan : TransferPlan}
    (hseal : SealSucceeds P) (hsend : SendSucceeds send) (hplan : plan.Valid P.overhead)
    (hszx : plan.szx ≤ 6) (hpath : ∃ c ∈ plan.uriPath, c ≠ slash)
    (hpathlen : plan.uriPath.length ≤ maxUriPath) {i : ℕ} (hi : i < plan.blockCount)
    (hnumber : plan.blockCount ≤ 1048576) {s : TransferState σ τ} (hat : s.At plan i) :
    ∃ s', sendBlock P send plan i s = (.ok (), s') ∧ s'.At plan (i + 1) := by
  have hlen := hplan.length_slice_le i
  have hblock := hplan.blockSize_le
  obtain ⟨record, security, hrecord, hrlen⟩ := hseal s.security (plan.slice i) (plan.aad i)
    maxBlockSize (by omega)
  obtain ⟨packet, s', -, hturn, hat', -⟩ := sendBlock_sealed hsend hplan hszx hpath hpathlen hi
    hnumber hat hrecord hrlen
  exact ⟨s', hturn, hat'⟩

theorem sendBlocks_total {P : SecurityProvider σ} {send : TransportSend τ} {plan : TransferPlan}
    (hseal : SealSucceeds P) (hsend : SendSucceeds send) (hplan : plan.Valid P.overhead)
    (hszx : plan.szx ≤ 6) (hpath : ∃ c ∈ plan.uriPath, c ≠ slash)
    (hpathlen : plan.uriPath.length ≤ maxUriPath) (hnumber : plan.blockCount ≤ 1048576)
    {count i : ℕ} (hcount : i + count = plan.blockCount) {s : TransferState σ τ}
    (hat : s.At plan i) : ∃ s', sendBlocks P send plan count i s = (.ok (), s') := by
  induction count generalizing i s with
  | zero => exact ⟨s, rfl⟩
  | succ count ih =>
    obtain ⟨s₁, hturn, hat₁⟩ := sendBlock_total hseal hsend hplan hszx hpath hpathlen
      (i := i) (by omega) hnumber hat
    obtain ⟨s', hrest⟩ := ih (i := i + 1) (by omega) hat₁
    refine ⟨s', ?_⟩
    rw [sendBlocks, hturn]
    exact hrest

/-! ## One call -/

omit [CDouble D] in
/-- The block sizes below the overhead are refused, the others are planned. -/
theorem planTransfer_of_szx {config : AdaptiveConfig D} (window : EncodedWindow D)
    (hszx : config.blockSzx window.state ≤ 6) (hlen : window.representation.length ≤ 1052) :
    if config.blockSzx window.state = 0 then
      planTransfer securityOverhead config window = fail .range
    else ∃ plan, planTransfer securityOverhead config window = .ok plan := by
  have hle : (config.blockSzx window.state).toNat ≤ 6 := UInt8.le_iff_toNat_le.mp hszx
  have hsize : coapBlockSize (config.blockSzx window.state) =
      2 ^ ((config.blockSzx window.state).toNat + 4) := by
    rw [coapBlockSize, if_neg (UInt8.not_lt.mpr hszx), Nat.one_shiftLeft]
  have hoverhead : securityOverhead = 25 := rfl
  have hblock : maxBlockSize = 1024 := rfl
  split
  · rename_i hzero
    have h16 : coapBlockSize (config.blockSzx window.state) = 16 := by rw [hzero]; rfl
    rw [planTransfer]
    simp only
    rw [if_pos (by omega)]
  · rename_i hne
    have hpos : 0 < (config.blockSzx window.state).toNat := by
      apply Nat.pos_of_ne_zero
      intro h0
      exact hne (UInt8.toNat_inj.mp h0)
    have hlow : 2 ^ 5 ≤ 2 ^ ((config.blockSzx window.state).toNat + 4) :=
      Nat.pow_le_pow_right (by omega) (by omega)
    have hhigh : 2 ^ ((config.blockSzx window.state).toNat + 4) ≤ 2 ^ 10 :=
      Nat.pow_le_pow_right (by omega) (by omega)
    have hcount := Nat.div_le_self (window.representation.length +
      (coapBlockSize (config.blockSzx window.state) - securityOverhead) - 1)
      (coapBlockSize (config.blockSzx window.state) - securityOverhead)
    have htotal := Nat.mul_le_mul_right securityOverhead hcount
    simp only [hoverhead] at hcount htotal
    rw [planTransfer]
    simp only [hoverhead]
    rw [if_neg (by omega), if_neg (by omega)]
    exact ⟨_, rfl⟩

theorem sliceCount_le (width length : ℕ) : sliceCount width length ≤ length + width := by
  have h := Nat.div_le_self (length + width - 1) width
  rw [sliceCount]
  omega

/-- A call before any network fault: the outcome depends on the block size of the
state that the model selects. -/
theorem pipelineProcess_of_accepted {P : SecurityProvider σ} {pipeline : Pipeline D σ}
    (hconfig : ConfigAccepted pipeline.config) (hoverhead : P.overhead = securityOverhead)
    (hseal : SealSucceeds P) (hpath : ∃ c ∈ pipeline.config.uriPath.chars, c ≠ slash)
    {samples : List F} (hsamples : samples.length = pipeline.config.windowSize)
    {metrics : NetworkMetrics D} (hmetrics : ∀ metric, isfinite (metrics metric) = true)
    {send : TransportSend τ} (hsend : SendSucceeds send) (sendContext : τ) :
    (pipeline.config.blockSzx
        (pipelineProcess P pipeline samples metrics send sendContext).2.1.hmm.state = 0 →
      (pipelineProcess P pipeline samples metrics send sendContext).1 = fail .range) ∧
    (pipeline.config.blockSzx
        (pipelineProcess P pipeline samples metrics send sendContext).2.1.hmm.state ≠ 0 →
      ∃ stats, (pipelineProcess P pipeline samples metrics send sendContext).1 = .ok stats) := by
  have hfinite : ¬∃ metric ∈ AdaptiveMetric.all, ¬isfinite (metrics metric) = true := by
    rintro ⟨metric, -, hbad⟩
    exact hbad (hmetrics metric)
  obtain ⟨normalized, normalizer, hnormalizer⟩ : ∃ normalized normalizer,
      normalizerUpdate pipeline.normalizer metrics = (.ok normalized, normalizer) := by
    rw [normalizerUpdate, if_neg hfinite]
    split
    · exact ⟨_, _, rfl⟩
    · exact ⟨_, _, rfl⟩
  obtain ⟨output, metadata, hencode, hlow, hhigh⟩ := codecEncode_total hconfig hsamples
    pipeline.nextWindowId (hmmStep pipeline.hmm normalized).1
  have hwindow : pipelineEncode pipeline samples metrics =
      (.ok ⟨pipeline.nextWindowId, (hmmStep pipeline.hmm normalized).1,
          (hmmStep pipeline.hmm normalized).2.1, output, metadata⟩,
        { pipeline with normalizer, hmm := (hmmStep pipeline.hmm normalized).2.2,
                        nextWindowId := pipeline.nextWindowId + 1 }) := by
    rw [pipelineEncode, if_neg (by rw [hsamples]; exact not_not.mpr rfl), hnormalizer]
    simp only
    rw [hencode]
  have hplanned := planTransfer_of_szx (⟨pipeline.nextWindowId, (hmmStep pipeline.hmm normalized).1,
      (hmmStep pipeline.hmm normalized).2.1, output, metadata⟩)
    (hconfig.blockSzx_le _) hhigh
  by_cases hzero : pipeline.config.blockSzx (hmmStep pipeline.hmm normalized).1 = 0
  · rw [if_pos hzero] at hplanned
    have hcall : (pipelineProcess P pipeline samples metrics send sendContext).1 = fail .range ∧
        (pipelineProcess P pipeline samples metrics send sendContext).2.1.hmm.state =
          (hmmStep pipeline.hmm normalized).1 := by
      rw [pipelineProcess, hwindow]
      simp only
      rw [hoverhead, hplanned]
      exact ⟨rfl, rfl⟩
    rw [hcall.2]
    exact ⟨fun _ => hcall.1, fun hne => absurd hzero hne⟩
  · rw [if_neg hzero] at hplanned
    obtain ⟨plan, hplan⟩ := hplanned
    obtain ⟨hvalid, -, hrep, hszx, -, huri⟩ := planTransfer_eq_ok hplan
    have hcount : plan.blockCount ≤ 1048576 := by
      have hle := sliceCount_le plan.plaintextCapacity plan.representation.length
      have hadd := hvalid.capacity_add
      have hsize : plan.blockSize ≤ 1024 := hvalid.blockSize_le
      have hplen : plan.representation.length = output.length := by rw [hrep]
      rw [hvalid.blockCount_eq]
      omega
    obtain ⟨s', hs'⟩ := sendBlocks_total (P := P) (s := ⟨pipeline.security, pipeline.nextMessageId,
        0, sendContext⟩) (i := 0) hseal hsend (hoverhead ▸ hvalid)
      (by rw [hszx]; exact hconfig.blockSzx_le _) (by rw [huri]; exact hpath)
      (by rw [huri]; exact pipeline.config.uriPath.length_le) hcount (Nat.zero_add _)
      (by simp [TransferState.At])
    have hcall : (∃ stats,
          (pipelineProcess P pipeline samples metrics send sendContext).1 = .ok stats) ∧
        (pipelineProcess P pipeline samples metrics send sendContext).2.1.hmm.state =
          (hmmStep pipeline.hmm normalized).1 := by
      rw [pipelineProcess, hwindow]
      simp only
      rw [hoverhead, hplan]
      simp only
      rw [hs']
      exact ⟨⟨_, rfl⟩, rfl⟩
    rw [hcall.2]
    exact ⟨fun h => absurd h hzero, fun _ => hcall.1⟩

/-! ## Every run -/

/-- The states of a pipeline: initialised, and after any calls. -/
inductive PipelineReachable (F : Type) [CFloat F D] (P : SecurityProvider σ)
    (config : AdaptiveConfig D) (security : σ) : Pipeline D σ → Prop where
  | init {pipeline} (h : pipelineInit P config security = .ok pipeline) :
      PipelineReachable F P config security pipeline
  | process {pipeline pipeline' : Pipeline D σ} {τ : Type} {samples : List F} {metrics}
      {send : TransportSend τ} {sendContext sendContext'} {r}
      (hreach : PipelineReachable F P config security pipeline)
      (h : pipelineProcess P pipeline samples metrics send sendContext =
        (r, pipeline', sendContext')) : PipelineReachable F P config security pipeline'

theorem PipelineReachable.config_eq {P : SecurityProvider σ} {config : AdaptiveConfig D}
    {security : σ} {pipeline : Pipeline D σ}
    (h : PipelineReachable F P config security pipeline) : pipeline.config = config := by
  induction h with
  | init h =>
    rw [pipelineInit] at h
    split at h
    · simp at h
    · cases h
      rfl
  | process _ h ih => exact (pipelineProcess_cases h).1.trans ih

theorem sealSucceeds_testProvider : SealSucceeds testProvider := by
  intro context plaintext aad capacity hroom
  change plaintext.length + securityOverhead ≤ capacity at hroom
  refine ⟨testRecord context.txKey context.txSequence plaintext aad,
    { context with txSequence := context.txSequence + 1 }, ?_, ?_⟩
  · change testSeal context plaintext aad capacity = _
    rw [testSeal, if_neg (by omega)]
  · rw [testRecord_eq, length_frame _ _ (length_makeTag _ _ _ _), length_applyStream]
    rfl

/-- A call on a pipeline that an accepted configuration was loaded into, after any
earlier calls, returns `ADAPTIVE_OK` when the selected state has a nonzero block size
exponent, and `ADAPTIVE_ERR_RANGE` when it has exponent zero. -/
theorem pipelineProcess_validated (P : SecurityProvider σ) (config : AdaptiveConfig D)
    (security : σ) (pipeline : Pipeline D σ) (samples : List F) (metrics : NetworkMetrics D)
    (send : TransportSend τ) (sendContext : τ) (hvalid : configValidate config = .ok ())
    (hpath : ∃ c ∈ config.uriPath.chars, c ≠ slash) (hoverhead : P.overhead = securityOverhead)
    (hseal : SealSucceeds P) (hreach : PipelineReachable F P config security pipeline)
    (hsamples : samples.length = config.windowSize)
    (hmetrics : ∀ metric, isfinite (metrics metric) = true) (hsend : SendSucceeds send) :
    (config.blockSzx
        (pipelineProcess P pipeline samples metrics send sendContext).2.1.hmm.state = 0 →
      (pipelineProcess P pipeline samples metrics send sendContext).1 = fail .range) ∧
    (config.blockSzx
        (pipelineProcess P pipeline samples metrics send sendContext).2.1.hmm.state ≠ 0 →
      ∃ stats, (pipelineProcess P pipeline samples metrics send sendContext).1 = .ok stats) := by
  obtain rfl := hreach.config_eq
  exact pipelineProcess_of_accepted (configAccepted_of_validate hvalid) hoverhead hseal hpath
    hsamples hmetrics hsend sendContext

def initialPipeline (config : AdaptiveConfig ℚ) : Pipeline ℚ TestContext where
  config := config
  normalizer := normalizerInit config.baselineAlpha config.baselineEpsilon
  hmm := hmmInit config
  security := (securityTestPair 7).1
  nextWindowId := 1
  nextMessageId := 1

def zeroWindow : List Single := List.replicate 8 (Single.ofRat 0)

/-- The first call on a configuration, with a window of zeros and a send that succeeds. -/
def firstCall (config : AdaptiveConfig ℚ) :
    Outcome (PipelineStats ℚ) × Pipeline ℚ TestContext × Unit :=
  pipelineProcess testProvider (initialPipeline config) zeroWindow (fun _ => 1)
    (fun t _ => (.ok, t)) ()

theorem pipelineProcess_validated_small :
    (smallConfig.blockSzx (firstCall smallConfig).2.1.hmm.state = 0 →
      (firstCall smallConfig).1 = fail .range) ∧
    (smallConfig.blockSzx (firstCall smallConfig).2.1.hmm.state ≠ 0 →
      ∃ stats, (firstCall smallConfig).1 = .ok stats) := by
  rw [firstCall]
  exact pipelineProcess_validated testProvider smallConfig (securityTestPair 7).1
    (initialPipeline smallConfig) zeroWindow (fun _ => 1) (fun t _ => (.ok, t)) ()
    (by decide +kernel) ⟨0x74, by decide, by decide⟩ rfl sealSucceeds_testProvider (.init rfl)
    List.length_replicate (fun _ => rfl) (fun _ _ => rfl)

def smallestBlocks : AdaptiveConfig ℚ := { smallConfig with blockSzx := fun _ => 0 }

def slashPath : AdaptiveConfig ℚ := { smallConfig with uriPath := ⟨[slash], by decide⟩ }

/-- Two accepted configurations on which a first call fails: a record does not fit a
block of sixteen bytes, and a path without a segment is not built. -/
theorem accepted_configs_refused :
    (configValidate smallestBlocks = .ok () ∧ (firstCall smallestBlocks).1 = fail .range) ∧
    configValidate slashPath = .ok () ∧ (firstCall slashPath).1 = fail .format := by
  refine ⟨⟨?_, ?_⟩, ?_, ?_⟩
  · decide +kernel
  · decide +kernel
  · decide +kernel
  · decide +kernel

end AdaptiveLowpan
