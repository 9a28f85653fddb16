import AdaptiveLowpan.IndependentTrials
import AdaptiveLowpan.LinkAccounting

/-! # The report of the reporting script

What a report costs in time and energy, once for the bytes of the ciphertexts alone and once
for all that goes over the link, in exact arithmetic. -/

namespace AdaptiveLowpan
open Chunks NetworkConfig

structure CryptoConfig where
  moduleRank : ℤ := 3
  ringDegree : ℤ := 256
  modulusBits : ℤ := 32
  ciphertextComponents : ℤ := 2
  envelopeOverheadBytes : ℤ := 0

namespace CryptoConfig

variable (crypto : CryptoConfig)

def singleCiphertextBytes : ℤ :=
  let bits := (crypto.moduleRank + 1) * crypto.ringDegree * crypto.modulusBits
  ⌈(bits : ℚ) / 8⌉

def hveBodyBytes : ℤ := crypto.ciphertextComponents * crypto.singleCiphertextBytes

def envelopeBytes : ℤ := crypto.hveBodyBytes + crypto.envelopeOverheadBytes

end CryptoConfig

structure RadioConfig extends NetworkConfig where
  bitrateBps : ℚ := 100000
  voltageV : ℚ := 3
  txCurrentA : ℚ := 0.0174
  rxCurrentA : ℚ := 0.0188
  hopCount : ℤ := 1
  retransmissionFactor : ℚ := 1

structure WorkloadConfig where
  sensitivePathProbability : ℚ := 0.3
  mcuLatencyMs : ℚ := 68.25
  mcuEnergyMj : ℚ := 1.522
  plainEnvelopeBytes : ℤ := 0

structure Profile where
  name : String
  sigmaEnc : ℚ
  nMax : ℕ
  deriving DecidableEq

def profiles : List Profile := [⟨"Pi_0", 3.2, 16⟩, ⟨"Pi_1", 3.4, 14⟩, ⟨"Pi_2", 3.6, 12⟩]

def checkPositive (name : String) (value : ℚ) (shown : String) : Except ValueError Unit :=
  if value ≤ 0 then .error ⟨name ++ " must be positive; got " ++ shown⟩ else .ok ()

def checkProbability (name : String) (value : ℚ) (shown : String) : Except ValueError Unit :=
  if ¬(0 ≤ value ∧ value ≤ 1) then .error ⟨name ++ " must lie in [0,1]; got " ++ shown⟩ else .ok ()

def airtimeS (byteCount : ℤ) (net : RadioConfig) : ℚ :=
  byteCount * 8 / net.bitrateBps * net.retransmissionFactor

def radioEnergyMj (currentA durationS : ℚ) (net : RadioConfig) : ℚ :=
  net.voltageV * currentA * durationS * 1000

structure BitExactSizes where
  singleMlweCiphertextBytes : ℤ
  twoCiphertextHveBodyBytes : ℤ
  authenticatedEnvelopeBytes : ℤ

structure LowerBounds where
  sensitiveSerializationMs : ℚ
  sensitiveSourceTxMj : ℚ
  expectedPerNodeLatencyMs : ℚ
  expectedPerNodeEnergyMj : ℚ

structure FrameAwareEstimates where
  sensitiveSourceAirtimeMs : ℚ
  sensitiveSourceTxMj : ℚ
  sensitiveReceiverRxMjPerHop : ℚ
  expectedSourceReportingLatencyMs : ℚ
  expectedSourceEnergyMj : ℚ
  expectedNetworkEnergyMjPerDeliveredReport : ℚ

structure CertifiedProfile where
  profile : Profile
  expectedSharedChannelAirtimeMs : ℚ
  allSensitiveSharedChannelAirtimeMs : ℚ
  probabilityAtLeastOneSensitiveReport : ℚ

/-- What `evaluate` returns beside its arguments and notes. -/
structure Report where
  bitExactSizes : BitExactSizes
  sensitivePacket : Packetized
  plainPacket : Packetized
  lowerBounds : LowerBounds
  estimates : FrameAwareEstimates
  certifiedProfiles : List CertifiedProfile

/-- `evaluate` behind the two calls of `packetize`. -/
def reportOf (crypto : CryptoConfig) (net : RadioConfig) (load : WorkloadConfig)
    (sensitivePacket plainPacket : Packetized) : Report :=
  let bodyAirtime := crypto.hveBodyBytes * 8 / net.bitrateBps
  let bodyTxEnergy := radioEnergyMj net.txCurrentA bodyAirtime net
  let sensitiveAirtime := airtimeS sensitivePacket.onAirBytesPerHop net
  let plainAirtime := airtimeS plainPacket.onAirBytesPerHop net
  let sensitiveTx := radioEnergyMj net.txCurrentA sensitiveAirtime net
  let sensitiveRx := radioEnergyMj net.rxCurrentA sensitiveAirtime net
  let plainTx := radioEnergyMj net.txCurrentA plainAirtime net
  let plainRx := radioEnergyMj net.rxCurrentA plainAirtime net
  let p := load.sensitivePathProbability
  let expectedSourceAirtime := p * sensitiveAirtime + (1 - p) * plainAirtime
  let expectedSourceTx := p * sensitiveTx + (1 - p) * plainTx
  let expectedNetworkRadio :=
    net.hopCount * (p * (sensitiveTx + sensitiveRx) + (1 - p) * (plainTx + plainRx))
  { bitExactSizes := ⟨crypto.singleCiphertextBytes, crypto.hveBodyBytes, crypto.envelopeBytes⟩
    sensitivePacket
    plainPacket
    lowerBounds := {
      sensitiveSerializationMs := bodyAirtime * 1000
      sensitiveSourceTxMj := bodyTxEnergy
      expectedPerNodeLatencyMs := load.mcuLatencyMs + p * bodyAirtime * 1000
      expectedPerNodeEnergyMj := load.mcuEnergyMj + p * bodyTxEnergy }
    estimates := {
      sensitiveSourceAirtimeMs := sensitiveAirtime * 1000
      sensitiveSourceTxMj := sensitiveTx
      sensitiveReceiverRxMjPerHop := sensitiveRx
      expectedSourceReportingLatencyMs := load.mcuLatencyMs + expectedSourceAirtime * 1000
      expectedSourceEnergyMj := load.mcuEnergyMj + expectedSourceTx
      expectedNetworkEnergyMjPerDeliveredReport := load.mcuEnergyMj + expectedNetworkRadio }
    certifiedProfiles := profiles.map fun profile => {
      profile
      expectedSharedChannelAirtimeMs := profile.nMax * expectedSourceAirtime * 1000
      allSensitiveSharedChannelAirtimeMs := profile.nMax * sensitiveAirtime * 1000
      probabilityAtLeastOneSensitiveReport := 1 - (1 - p) ^ profile.nMax } }

def evaluate (shown : ℚ → String) (crypto : CryptoConfig) (net : RadioConfig)
    (load : WorkloadConfig) : Except ValueError Report := do
  checkPositive "bitrate_bps" net.bitrateBps (shown net.bitrateBps)
  checkPositive "hop_count" net.hopCount (toString net.hopCount)
  checkPositive "retransmission_factor" net.retransmissionFactor (shown net.retransmissionFactor)
  checkProbability "sensitive_path_probability" load.sensitivePathProbability
    (shown load.sensitivePathProbability)
  let sensitivePacket ← packetize crypto.envelopeBytes net.toNetworkConfig
  let plainPacket ← packetize load.plainEnvelopeBytes net.toNetworkConfig
  return reportOf crypto net load sensitivePacket plainPacket

/-! ## Bytes on the air -/

section
variable {net : NetworkConfig}

theorem le_totals_linkFrames (h : net.Valid) (datagramBytes : ℤ) :
    datagramBytes ≤ (net.totals (net.linkFrames datagramBytes)).1 := by
  have hframes : ∀ frame ∈ net.linkFrames datagramBytes, frame.payload ≤ net.frameBytes frame := by
    have hmac := h.mac_nonneg
    have hfrag1 := h.frag1_nonneg
    have hfragn := h.fragn_nonneg
    intro frame hframe
    rcases le_or_gt datagramBytes (net.phyFrameBytes - net.macOverheadBytes) with hfits | hlarge
    · rw [linkFrames_of_le hfits, List.mem_singleton] at hframe
      simp only [hframe, frameBytes]
      omega
    · rw [linkFrames_of_lt hlarge, List.mem_cons, List.mem_map] at hframe
      rcases hframe with rfl | ⟨chunk, -, rfl⟩
      · simp only [frameBytes]
        omega
      · simp only [frameBytes]
        omega
  calc datagramBytes = ((net.linkFrames datagramBytes).map Frame.payload).sum :=
        (sum_payload_linkFrames h datagramBytes).symm
    _ ≤ ((net.linkFrames datagramBytes).map net.frameBytes).sum := List.sum_le_sum hframes

theorem sum_le_blockTotals (h : net.Valid) (blocks : List ℤ) :
    blocks.sum ≤ (blockTotals net blocks).1 := by
  have hheader := h.header_nonneg
  induction blocks with
  | nil => exact le_refl _
  | cons block blocks ih =>
    have hblock := le_totals_linkFrames h (block + net.compressedNetworkHeaderBytes)
    rw [blockTotals, List.map_cons, List.sum_cons, List.sum_cons, Prod.fst_add]
    rw [blockTotals] at ih
    omega

/-- A payload costs at least its own bytes, and never less than nothing. -/
theorem le_onAirBytes (h : net.Valid) (payloadBytes : ℤ) :
    payloadBytes ≤ (blockTotals net (chunks net.coapBlockPayloadBytes payloadBytes)).1 ∧
      0 ≤ (blockTotals net (chunks net.coapBlockPayloadBytes payloadBytes)).1 := by
  have hsum := sum_le_blockTotals h (chunks net.coapBlockPayloadBytes payloadBytes)
  rcases le_total payloadBytes 0 with hnone | hsome
  · rw [chunks_of_nonpos hnone] at hsum ⊢
    exact ⟨hnone.trans hsum, hsum⟩
  · rw [sum_chunks (Int.add_one_le_iff.mp h.block_pos) hsome] at hsum
    exact ⟨hsum, hsome.trans hsum⟩

end

/-! ## What `evaluate` accepts -/

structure Evaluable (net : RadioConfig) (load : WorkloadConfig) : Prop where
  bitrate_pos : 0 < net.bitrateBps
  hop_pos : 0 < net.hopCount
  factor_pos : 0 < net.retransmissionFactor
  probability_nonneg : 0 ≤ load.sensitivePathProbability
  probability_le : load.sensitivePathProbability ≤ 1

theorem checkPositive_eq_ok_iff {name shown : String} {value : ℚ} :
    checkPositive name value shown = .ok () ↔ 0 < value := by
  rw [checkPositive]
  split
  · simpa using ‹value ≤ 0›
  · simpa using ‹¬value ≤ 0›

theorem checkProbability_eq_ok_iff {name shown : String} {value : ℚ} :
    checkProbability name value shown = .ok () ↔ 0 ≤ value ∧ value ≤ 1 := by
  rw [checkProbability]
  split
  · simpa using ‹¬(0 ≤ value ∧ value ≤ 1)›
  · simpa using ‹¬¬(0 ≤ value ∧ value ≤ 1)›

variable {shown : ℚ → String} {crypto : CryptoConfig} {net : RadioConfig} {load : WorkloadConfig}

def packetOf (net : NetworkConfig) (payloadBytes : ℤ) : Packetized :=
  let blocks := chunks net.coapBlockPayloadBytes payloadBytes
  ⟨blocks.length, (blockTotals net blocks).2, (blockTotals net blocks).1⟩

theorem check_bind_eq_ok_iff {check : Except ValueError Unit} {rest : Except ValueError Report}
    {r : Report} : (check >>= fun _ => rest) = .ok r ↔ check = .ok () ∧ rest = .ok r := by
  cases check with
  | error e =>
    constructor
    · intro h
      cases h
    · rintro ⟨h, -⟩
      cases h
  | ok _ => exact ⟨fun h => ⟨rfl, h⟩, fun h => h.2⟩

theorem evaluate_eq_ok_iff (h : net.Valid) {r : Report} :
    evaluate shown crypto net load = .ok r ↔ Evaluable net load ∧
      r = reportOf crypto net load (packetOf net.toNetworkConfig crypto.envelopeBytes)
        (packetOf net.toNetworkConfig load.plainEnvelopeBytes) := by
  rw [evaluate, packetize_eq h, packetize_eq h, check_bind_eq_ok_iff, check_bind_eq_ok_iff,
    check_bind_eq_ok_iff, check_bind_eq_ok_iff, checkPositive_eq_ok_iff, checkPositive_eq_ok_iff,
    checkPositive_eq_ok_iff, checkProbability_eq_ok_iff, Int.cast_pos]
  constructor
  · rintro ⟨hbitrate, hhop, hfactor, ⟨hnonneg, hle⟩, hreport⟩
    exact ⟨⟨hbitrate, hhop, hfactor, hnonneg, hle⟩, (Except.ok.inj hreport).symm⟩
  · rintro ⟨⟨hbitrate, hhop, hfactor, hnonneg, hle⟩, rfl⟩
    exact ⟨hbitrate, hhop, hfactor, ⟨hnonneg, hle⟩, rfl⟩

/-! ## Time and energy -/

theorem airtimeS_mono (hvalues : Evaluable net load) {bytes bytes' : ℤ} (hle : bytes ≤ bytes') :
    airtimeS bytes net ≤ airtimeS bytes' net := by
  have hbitrate := hvalues.bitrate_pos
  have hfactor := hvalues.factor_pos
  have hcast : (bytes : ℚ) ≤ bytes' := Int.cast_le.mpr hle
  rw [airtimeS, airtimeS]
  gcongr

theorem airtimeS_nonneg (hvalues : Evaluable net load) {bytes : ℤ} (h : 0 ≤ bytes) :
    0 ≤ airtimeS bytes net := by
  have hzero : airtimeS 0 net = 0 := by simp [airtimeS]
  exact hzero.symm.le.trans (airtimeS_mono hvalues h)

/-- Bytes that are each sent at least once take at least the time of the bytes. -/
theorem body_le_airtimeS (hvalues : Evaluable net load) (hfactor : 1 ≤ net.retransmissionFactor)
    {body bytes : ℤ} (hle : body ≤ bytes) (hnonneg : 0 ≤ bytes) :
    body * 8 / net.bitrateBps ≤ airtimeS bytes net := by
  have hbitrate := hvalues.bitrate_pos
  have hcast : (body : ℚ) ≤ bytes := Int.cast_le.mpr hle
  have hbytes : (0 : ℚ) ≤ bytes * 8 / net.bitrateBps :=
    div_nonneg (mul_nonneg (Int.cast_nonneg hnonneg) (by norm_num)) hbitrate.le
  calc body * 8 / net.bitrateBps ≤ bytes * 8 / net.bitrateBps := by gcongr
    _ = bytes * 8 / net.bitrateBps * 1 := (mul_one _).symm
    _ ≤ airtimeS bytes net := mul_le_mul_of_nonneg_left hfactor hbytes

theorem radioEnergyMj_mono {current duration duration' : ℚ} (hvoltage : 0 ≤ net.voltageV)
    (hcurrent : 0 ≤ current) (hle : duration ≤ duration') :
    radioEnergyMj current duration net ≤ radioEnergyMj current duration' net := by
  rw [radioEnergyMj, radioEnergyMj]
  gcongr

theorem radioEnergyMj_nonneg {current duration : ℚ} (hvoltage : 0 ≤ net.voltageV)
    (hcurrent : 0 ≤ current) (hduration : 0 ≤ duration) :
    0 ≤ radioEnergyMj current duration net :=
  mul_nonneg (mul_nonneg (mul_nonneg hvoltage hcurrent) hduration) (by norm_num)

/-! ## The report -/

/-- Every lower bound is below its estimate, and the source is a part of the network. -/
structure Report.Bounded (r : Report) : Prop where
  serialization_le : r.lowerBounds.sensitiveSerializationMs ≤ r.estimates.sensitiveSourceAirtimeMs
  transmission_le : r.lowerBounds.sensitiveSourceTxMj ≤ r.estimates.sensitiveSourceTxMj
  latency_le :
    r.lowerBounds.expectedPerNodeLatencyMs ≤ r.estimates.expectedSourceReportingLatencyMs
  energy_le : r.lowerBounds.expectedPerNodeEnergyMj ≤ r.estimates.expectedSourceEnergyMj
  source_le : r.estimates.expectedSourceEnergyMj ≤
    r.estimates.expectedNetworkEnergyMjPerDeliveredReport

/-- A mean is not less than the part that one of its two values has in it. -/
theorem le_weighted {p x y z : ℚ} (hp : 0 ≤ p) (hp' : p ≤ 1) (hx : x ≤ y) (hz : 0 ≤ z) :
    p * x ≤ p * y + (1 - p) * z := by
  have hpart := mul_le_mul_of_nonneg_left hx hp
  have hother := mul_nonneg (sub_nonneg.mpr hp') hz
  linarith

/-- What the source spends is a part of what the nodes on the path spend. -/
theorem source_le_network {p hops tx tx' rx rx' : ℚ} (hp : 0 ≤ p) (hp' : p ≤ 1) (hhops : 1 ≤ hops)
    (htx : 0 ≤ tx) (htx' : 0 ≤ tx') (hrx : 0 ≤ rx) (hrx' : 0 ≤ rx') :
    p * tx + (1 - p) * tx' ≤ hops * (p * (tx + rx) + (1 - p) * (tx' + rx')) := by
  have hother := sub_nonneg.mpr hp'
  have hsent := add_nonneg (mul_nonneg hp htx) (mul_nonneg hother htx')
  have hreceived := add_nonneg (mul_nonneg hp hrx) (mul_nonneg hother hrx')
  have hhop : p * tx + (1 - p) * tx' ≤ p * (tx + rx) + (1 - p) * (tx' + rx') := by linarith
  exact hhop.trans (le_mul_of_one_le_left (hsent.trans hhop) hhops)

theorem reportOf_bounded (h : net.Valid) (hvalues : Evaluable net load)
    (hfactor : 1 ≤ net.retransmissionFactor) (hvoltage : 0 ≤ net.voltageV)
    (htx : 0 ≤ net.txCurrentA) (hrx : 0 ≤ net.rxCurrentA)
    (hoverhead : 0 ≤ crypto.envelopeOverheadBytes) :
    (reportOf crypto net load (packetOf net.toNetworkConfig crypto.envelopeBytes)
      (packetOf net.toNetworkConfig load.plainEnvelopeBytes)).Bounded := by
  obtain ⟨hsensitive, hsensitive0⟩ := le_onAirBytes h crypto.envelopeBytes
  obtain ⟨-, hplain0⟩ := le_onAirBytes h load.plainEnvelopeBytes
  have hbody : crypto.hveBodyBytes ≤ crypto.envelopeBytes := by
    rw [CryptoConfig.envelopeBytes]
    omega
  have hp := hvalues.probability_nonneg
  have hp' := hvalues.probability_le
  have hhops : (1 : ℚ) ≤ net.hopCount := by exact_mod_cast hvalues.hop_pos
  have htime := body_le_airtimeS hvalues hfactor (hbody.trans hsensitive) hsensitive0
  have hsensitiveTime := airtimeS_nonneg hvalues hsensitive0
  have hplainTime := airtimeS_nonneg hvalues hplain0
  have henergy := radioEnergyMj_mono hvoltage htx htime
  have hsensitiveTx := radioEnergyMj_nonneg hvoltage htx hsensitiveTime
  have hplainTx := radioEnergyMj_nonneg hvoltage htx hplainTime
  have hsensitiveRx := radioEnergyMj_nonneg hvoltage hrx hsensitiveTime
  have hplainRx := radioEnergyMj_nonneg hvoltage hrx hplainTime
  have hlatency := le_weighted hp hp' htime hplainTime
  have hsource := le_weighted hp hp' henergy hplainTx
  constructor
  · exact mul_le_mul_of_nonneg_right htime (by norm_num)
  · exact henergy
  · simp only [reportOf, packetOf]
    linarith
  · exact add_le_add_right hsource _
  · exact add_le_add_right (source_le_network hp hp' hhops hsensitiveTx hplainTx hsensitiveRx
      hplainRx) _

/-- The occupancy of the channel by a batch is the mean over which of its reports are sensitive,
each on its own. -/
structure CertifiedProfile.Mean (row : CertifiedProfile) (p sensitiveMs plainMs : ℚ) : Prop where
  airtime : row.expectedSharedChannelAirtimeMs =
    IndependentTrials.mean (fun _ => p) (Finset.range row.profile.nMax)
      (IndependentTrials.cost (fun _ => sensitiveMs) (fun _ => plainMs)
        (Finset.range row.profile.nMax))
  probability : row.probabilityAtLeastOneSensitiveReport =
    IndependentTrials.mean (fun _ => p) (Finset.range row.profile.nMax)
      (fun sensitive => if sensitive = ∅ then 0 else 1)

theorem mean_of_mem {sensitivePacket plainPacket : Packetized} {row : CertifiedProfile}
    (h : row ∈ (reportOf crypto net load sensitivePacket plainPacket).certifiedProfiles) :
    row.Mean load.sensitivePathProbability (airtimeS sensitivePacket.onAirBytesPerHop net * 1000)
      (airtimeS plainPacket.onAirBytesPerHop net * 1000) := by
  obtain ⟨profile, -, rfl⟩ := List.mem_map.mp h
  constructor
  · rw [IndependentTrials.mean_cost, Finset.sum_const, Finset.card_range, nsmul_eq_mul]
    ring
  · rw [IndependentTrials.mean_nonempty, Finset.prod_const, Finset.card_range]

theorem certifiedProfiles_reportOf {sensitivePacket plainPacket : Packetized} :
    (reportOf crypto net load sensitivePacket plainPacket).certifiedProfiles.map (·.profile) =
      profiles := rfl

/-- With valid sizes, the script reports exactly on a positive bit rate, number of hops and
number of transmissions and a probability. It has one entry for each profile, whose occupancies
are means over the outcomes of a batch, and are largest where all reports are sensitive, if
these are the larger ones; where a frame is sent at least once and no current, voltage or
overhead is negative, the estimates are above the lower bounds. -/
theorem evaluate_consistent (h : net.Valid) :
    ((∃ r, evaluate shown crypto net load = .ok r) ↔ Evaluable net load) ∧
    ∀ r, evaluate shown crypto net load = .ok r →
      r.certifiedProfiles.map (·.profile) = profiles ∧
      (∀ row ∈ r.certifiedProfiles, row.Mean load.sensitivePathProbability
        r.estimates.sensitiveSourceAirtimeMs (airtimeS r.plainPacket.onAirBytesPerHop net * 1000)) ∧
      (load.plainEnvelopeBytes ≤ crypto.envelopeBytes → ∀ row ∈ r.certifiedProfiles,
        row.expectedSharedChannelAirtimeMs ≤ row.allSensitiveSharedChannelAirtimeMs) ∧
      (1 ≤ net.retransmissionFactor → 0 ≤ net.voltageV → 0 ≤ net.txCurrentA →
        0 ≤ net.rxCurrentA → 0 ≤ crypto.envelopeOverheadBytes → r.Bounded) := by
  constructor
  · constructor
    · rintro ⟨r, hr⟩
      exact ((evaluate_eq_ok_iff h).mp hr).1
    · intro hvalues
      exact ⟨_, (evaluate_eq_ok_iff h).mpr ⟨hvalues, rfl⟩⟩
  · intro r hr
    obtain ⟨hvalues, rfl⟩ := (evaluate_eq_ok_iff h).mp hr
    refine ⟨certifiedProfiles_reportOf, fun row hrow => mean_of_mem hrow, ?_, ?_⟩
    · intro hlarger row hrow
      obtain ⟨profile, -, rfl⟩ := List.mem_map.mp hrow
      have hbytes := (blockTotals_mono h hlarger).1
      have htime := airtimeS_mono hvalues hbytes
      have hmean := mul_le_mul_of_nonneg_left htime (sub_nonneg.mpr hvalues.probability_le)
      simp only [packetOf]
      gcongr
      linarith
    · intro hfactor hvoltage htx hrx hoverhead
      exact reportOf_bounded h hvalues hfactor hvoltage htx hrx hoverhead

theorem evaluate_consistent_defaults :
    ∃ r, evaluate (fun _ => "") {} {} {} = .ok r ∧
      r.certifiedProfiles.map (·.profile.name) = ["Pi_0", "Pi_1", "Pi_2"] ∧ r.Bounded := by
  have hvalid : ({} : RadioConfig).Valid := by
    constructor <;> decide
  have hconsistent := @evaluate_consistent (fun _ => "") {} {} {} hvalid
  obtain ⟨r, hr⟩ := hconsistent.1.mpr (by constructor <;> norm_num)
  obtain ⟨hprofiles, -, -, hbounded⟩ := hconsistent.2 r hr
  refine ⟨r, hr, ?_, ?_⟩
  · have hnames := congrArg (List.map Profile.name) hprofiles
    rwa [List.map_map] at hnames
  · exact hbounded (by norm_num) (by norm_num) (by norm_num) (by norm_num) (by norm_num)

end AdaptiveLowpan
