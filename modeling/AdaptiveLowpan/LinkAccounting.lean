import AdaptiveLowpan.Chunks
import Mathlib.Algebra.Order.Monoid.Prod

/-! # The link layer in the reporting script

How many frames and bytes a payload costs on the link: CoAP cuts it into blocks, and each
block with its header is one datagram, which 6LoWPAN cuts into frames. -/

namespace AdaptiveLowpan
open Chunks

structure ValueError where
  message : String
  deriving DecidableEq

structure NetworkConfig where
  coapBlockPayloadBytes : ℤ := 512
  phyFrameBytes : ℤ := 127
  macOverheadBytes : ℤ := 25
  compressedNetworkHeaderBytes : ℤ := 20
  frag1HeaderBytes : ℤ := 4
  fragnHeaderBytes : ℤ := 5

def Python.range (start stop step : ℤ) : Except ValueError (List ℤ) :=
  if step = 0 then .error ⟨"range() arg 3 must not be zero"⟩
  else .ok ((List.range (-(start - stop).fdiv step).toNat).map fun i : ℕ => start + i * step)

def coapBlocks (payloadBytes blockPayloadBytes : ℤ) : Except ValueError (List ℤ) :=
  if payloadBytes = 0 then .ok []
  else do
    let offsets ← Python.range 0 payloadBytes blockPayloadBytes
    return offsets.map fun offset => min blockPayloadBytes (payloadBytes - offset)

def laterFragments (net : NetworkConfig) {nextCapacity : ℤ} (hnext : 0 < nextCapacity)
    (totalLinkBytes frames remaining : ℤ) : ℤ × ℤ :=
  if remaining > 0 then
    let chunk := min nextCapacity remaining
    laterFragments net hnext
      (totalLinkBytes + (net.macOverheadBytes + net.fragnHeaderBytes + chunk)) (frames + 1)
      (remaining - chunk)
  else (totalLinkBytes, frames)
termination_by remaining.toNat

def linkBytesForDatagram (datagramBytes : ℤ) (net : NetworkConfig) :
    Except ValueError (ℤ × ℤ) :=
  let unfragmentedCapacity := net.phyFrameBytes - net.macOverheadBytes
  if datagramBytes ≤ unfragmentedCapacity then .ok (net.macOverheadBytes + datagramBytes, 1)
  else
    let firstCapacity := net.phyFrameBytes - net.macOverheadBytes - net.frag1HeaderBytes
    let nextCapacity := net.phyFrameBytes - net.macOverheadBytes - net.fragnHeaderBytes
    if h : firstCapacity ≤ 0 ∨ nextCapacity ≤ 0 then
      .error ⟨"Configured headers leave no IEEE 802.15.4 payload capacity"⟩
    else
      let firstPayload := min firstCapacity datagramBytes
      .ok (laterFragments net (not_le.mp (not_or.mp h).2)
        (net.macOverheadBytes + net.frag1HeaderBytes + firstPayload) 1
        (datagramBytes - firstPayload))

structure Packetized where
  coapBlocks : ℤ
  ieee802154Frames : ℤ
  onAirBytesPerHop : ℤ
  deriving DecidableEq

/-- The body of the loop over the blocks, with the bytes on the air and the frames so far. -/
def addBlock (net : NetworkConfig) (totals : ℤ × ℤ) (blockPayload : ℤ) :
    Except ValueError (ℤ × ℤ) := do
  let datagramBytes := blockPayload + net.compressedNetworkHeaderBytes
  let (onAirBytes, frames) ← linkBytesForDatagram datagramBytes net
  return (totals.1 + onAirBytes, totals.2 + frames)

def packetize (payloadBytes : ℤ) (net : NetworkConfig) : Except ValueError Packetized := do
  let blocks ← coapBlocks payloadBytes net.coapBlockPayloadBytes
  let totals ← blocks.foldlM (addBlock net) (0, 0)
  return ⟨blocks.length, totals.2, totals.1⟩

/-! ## Frames -/

/-- What a frame carries behind its MAC header: a fragment header, and bytes of the datagram. -/
structure Frame where
  fragmentHeader : ℤ
  payload : ℤ

namespace NetworkConfig

variable (net : NetworkConfig)

def firstCapacity : ℤ := net.phyFrameBytes - net.macOverheadBytes - net.frag1HeaderBytes

def nextCapacity : ℤ := net.phyFrameBytes - net.macOverheadBytes - net.fragnHeaderBytes

structure Valid : Prop where
  block_pos : 1 ≤ net.coapBlockPayloadBytes
  header_nonneg : 0 ≤ net.compressedNetworkHeaderBytes
  mac_nonneg : 0 ≤ net.macOverheadBytes
  frag1_nonneg : 0 ≤ net.frag1HeaderBytes
  fragn_nonneg : 0 ≤ net.fragnHeaderBytes
  first_pos : 0 < net.firstCapacity
  next_pos : 0 < net.nextCapacity

def frameBytes (frame : Frame) : ℤ :=
  net.macOverheadBytes + frame.fragmentHeader + frame.payload

/-- The frames of a datagram, one for each time that the script adds up bytes. -/
def linkFrames (datagramBytes : ℤ) : List Frame :=
  if datagramBytes ≤ net.phyFrameBytes - net.macOverheadBytes then [⟨0, datagramBytes⟩]
  else ⟨net.frag1HeaderBytes, net.firstCapacity⟩ ::
    (chunks net.nextCapacity (datagramBytes - net.firstCapacity)).map
      (Frame.mk net.fragnHeaderBytes)

def totals (frames : List Frame) : ℤ × ℤ := ((frames.map net.frameBytes).sum, frames.length)

@[simp] theorem totals_nil : net.totals [] = (0, 0) := rfl

@[simp] theorem totals_cons (frame : Frame) (frames : List Frame) :
    net.totals (frame :: frames) =
      (net.frameBytes frame + (net.totals frames).1, (net.totals frames).2 + 1) := by
  rw [totals, totals, List.map_cons, List.sum_cons, List.length_cons, Nat.cast_succ]

theorem totals_eq_sum (frames : List Frame) :
    net.totals frames = (frames.map fun frame => (net.frameBytes frame, (1 : ℤ))).sum := by
  induction frames with
  | nil => rfl
  | cons frame frames ih =>
    rw [totals_cons, List.map_cons, List.sum_cons, ← ih]
    exact Prod.ext rfl (add_comm _ _)

variable {net}

theorem linkFrames_of_le {datagramBytes : ℤ}
    (h : datagramBytes ≤ net.phyFrameBytes - net.macOverheadBytes) :
    net.linkFrames datagramBytes = [⟨0, datagramBytes⟩] := if_pos h

theorem linkFrames_of_lt {datagramBytes : ℤ}
    (h : net.phyFrameBytes - net.macOverheadBytes < datagramBytes) :
    net.linkFrames datagramBytes = ⟨net.frag1HeaderBytes, net.firstCapacity⟩ ::
      (chunks net.nextCapacity (datagramBytes - net.firstCapacity)).map
        (Frame.mk net.fragnHeaderBytes) := if_neg h.not_ge

/-- Of a datagram that does not fit one frame, something is left after the first. -/
theorem Valid.firstCapacity_lt (h : net.Valid) {datagramBytes : ℤ}
    (hlarge : net.phyFrameBytes - net.macOverheadBytes < datagramBytes) :
    net.firstCapacity < datagramBytes := by
  have hfrag1 := h.frag1_nonneg
  rw [firstCapacity]
  omega

theorem totals_map_mk (fragmentHeader : ℤ) (payloads : List ℤ) :
    net.totals (payloads.map (Frame.mk fragmentHeader)) =
      (payloads.length * (net.macOverheadBytes + fragmentHeader) + payloads.sum,
        (payloads.length : ℤ)) := by
  induction payloads with
  | nil => simp
  | cons payload payloads ih =>
    rw [List.map_cons, totals_cons, ih, List.length_cons, List.sum_cons, frameBytes]
    push_cast
    refine Prod.ext ?_ rfl
    ring

end NetworkConfig

/-! ## What the script adds up -/

open NetworkConfig

section
variable {net : NetworkConfig}

theorem laterFragments_eq {nextCapacity : ℤ} (hnext : 0 < nextCapacity)
    (totalLinkBytes frames remaining : ℤ) :
    laterFragments net hnext totalLinkBytes frames remaining =
      (totalLinkBytes, frames) +
        net.totals ((chunks nextCapacity remaining).map (Frame.mk net.fragnHeaderBytes)) := by
  induction remaining using chunk_induction hnext generalizing totalLinkBytes frames with
  | done remaining hdone =>
    rw [laterFragments, if_neg (by omega), chunks_of_nonpos hdone]
    simp
  | more remaining hpos ih =>
    rw [laterFragments, if_pos hpos, ih, chunks_of_pos hnext hpos, List.map_cons, totals_cons]
    refine Prod.ext ?_ ?_
    · simp only [Prod.fst_add, frameBytes]
      ring
    · simp only [Prod.snd_add]
      ring

/-- The script adds up the bytes of the frames and counts them. -/
theorem linkBytesForDatagram_eq (h : net.Valid) (datagramBytes : ℤ) :
    linkBytesForDatagram datagramBytes net = .ok (net.totals (net.linkFrames datagramBytes)) := by
  rw [linkBytesForDatagram]
  rcases le_or_gt datagramBytes (net.phyFrameBytes - net.macOverheadBytes) with hfits | hlarge
  · rw [linkFrames_of_le hfits]
    simp [hfits, frameBytes]
  · have hroom : ¬(net.firstCapacity ≤ 0 ∨ net.nextCapacity ≤ 0) :=
      not_or.mpr ⟨h.first_pos.not_ge, h.next_pos.not_ge⟩
    have hfirst : min net.firstCapacity datagramBytes = net.firstCapacity :=
      min_eq_left (h.firstCapacity_lt hlarge).le
    rw [if_neg hlarge.not_ge, linkFrames_of_lt hlarge, totals_cons]
    refine (dif_neg hroom).trans (congrArg Except.ok ?_)
    change laterFragments net h.next_pos
      (net.macOverheadBytes + net.frag1HeaderBytes + min net.firstCapacity datagramBytes) 1
      (datagramBytes - min net.firstCapacity datagramBytes) = _
    rw [hfirst, laterFragments_eq]
    exact Prod.ext rfl (add_comm _ _)

theorem frameBytes_le (h : net.Valid) {datagramBytes : ℤ} {frame : Frame}
    (hframe : frame ∈ net.linkFrames datagramBytes) : net.frameBytes frame ≤ net.phyFrameBytes := by
  rcases le_or_gt datagramBytes (net.phyFrameBytes - net.macOverheadBytes) with hfits | hlarge
  · rw [linkFrames_of_le hfits, List.mem_singleton] at hframe
    simp only [hframe, frameBytes]
    omega
  · rw [linkFrames_of_lt hlarge, List.mem_cons, List.mem_map] at hframe
    rcases hframe with rfl | ⟨chunk, hchunk, rfl⟩
    · simp only [frameBytes, firstCapacity]
      omega
    · have hle := (mem_chunks h.next_pos hchunk).2
      simp only [frameBytes, nextCapacity] at hle ⊢
      omega

theorem sum_payload_linkFrames (h : net.Valid) (datagramBytes : ℤ) :
    ((net.linkFrames datagramBytes).map Frame.payload).sum = datagramBytes := by
  rcases le_or_gt datagramBytes (net.phyFrameBytes - net.macOverheadBytes) with hfits | hlarge
  · simp [linkFrames_of_le hfits]
  · have hrest := sub_nonneg.mpr (h.firstCapacity_lt hlarge).le
    have hpayload : Frame.payload ∘ Frame.mk net.fragnHeaderBytes = id := rfl
    rw [linkFrames_of_lt hlarge, List.map_cons, List.sum_cons, List.map_map, hpayload, List.map_id,
      sum_chunks h.next_pos hrest]
    exact add_sub_cancel _ _

theorem totals_of_fragmented (h : net.Valid) {datagramBytes : ℤ}
    (hlarge : net.phyFrameBytes - net.macOverheadBytes < datagramBytes) {f : ℤ}
    (hf : f = 1 + ⌈((datagramBytes - net.firstCapacity : ℤ) : ℚ) / net.nextCapacity⌉) :
    net.totals (net.linkFrames datagramBytes) =
      (datagramBytes + f * net.macOverheadBytes + net.frag1HeaderBytes +
        (f - 1) * net.fragnHeaderBytes, f) := by
  have hrest := sub_nonneg.mpr (h.firstCapacity_lt hlarge).le
  have hcount := length_chunks h.next_pos hrest
  rw [linkFrames_of_lt hlarge, totals_cons, totals_map_mk, sum_chunks h.next_pos hrest, hcount, hf,
    frameBytes]
  refine Prod.ext ?_ (add_comm _ _)
  simp only
  ring

/-! ## Growth -/

theorem totals_linkFrames_mono (h : net.Valid) {d d' : ℤ} (hle : d ≤ d') :
    net.totals (net.linkFrames d) ≤ net.totals (net.linkFrames d') := by
  have hmac := h.mac_nonneg
  have hfrag1 := h.frag1_nonneg
  have hfragn := h.fragn_nonneg
  rcases le_or_gt d' (net.phyFrameBytes - net.macOverheadBytes) with hfits' | hlarge'
  · rw [linkFrames_of_le hfits', linkFrames_of_le (hle.trans hfits')]
    simp only [totals_cons, totals_nil, frameBytes]
    exact Prod.mk_le_mk.mpr ⟨by omega, le_refl _⟩
  rcases le_or_gt d (net.phyFrameBytes - net.macOverheadBytes) with hfits | hlarge
  · have hrest := sub_nonneg.mpr (h.firstCapacity_lt hlarge').le
    have hheaders : 0 ≤ ((chunks net.nextCapacity (d' - net.firstCapacity)).length : ℤ) *
        (net.macOverheadBytes + net.fragnHeaderBytes) :=
      mul_nonneg (Int.natCast_nonneg _) (add_nonneg hmac hfragn)
    rw [linkFrames_of_le hfits, linkFrames_of_lt hlarge']
    simp only [totals_cons, totals_nil, totals_map_mk, sum_chunks h.next_pos hrest, frameBytes]
    exact Prod.mk_le_mk.mpr ⟨by omega, by omega⟩
  · have hlater := sum_map_chunks_le h.next_pos
      (fun chunk => (net.frameBytes ⟨net.fragnHeaderBytes, chunk⟩, (1 : ℤ)))
      (fun c hc => Prod.mk_le_mk.mpr ⟨add_nonneg (add_nonneg hmac hfragn) hc.le, zero_le_one⟩)
      (fun c c' _ hc => Prod.mk_le_mk.mpr ⟨add_le_add_right hc _, le_refl _⟩)
      (sub_le_sub_right hle net.firstCapacity)
    rw [linkFrames_of_lt hlarge, linkFrames_of_lt hlarge', totals_cons, totals_cons,
      totals_eq_sum, totals_eq_sum, List.map_map, List.map_map]
    exact Prod.mk_le_mk.mpr ⟨add_le_add_right hlater.1 _, add_le_add_left hlater.2 _⟩

theorem totals_linkFrames_nonneg (h : net.Valid) {d : ℤ} (hd : 0 ≤ d) :
    0 ≤ net.totals (net.linkFrames d) := by
  have hfirst := h.first_pos
  have hfrag1 := h.frag1_nonneg
  have hmac := h.mac_nonneg
  rw [firstCapacity] at hfirst
  refine le_trans ?_ (totals_linkFrames_mono h hd)
  rw [linkFrames_of_le (by omega)]
  simp only [totals_cons, totals_nil, frameBytes]
  exact Prod.mk_le_mk.mpr ⟨by omega, zero_le_one⟩

/-! ## Blocks -/

theorem coapBlocks_eq (payloadBytes : ℤ) {blockPayloadBytes : ℤ} (hblock : 0 < blockPayloadBytes) :
    coapBlocks payloadBytes blockPayloadBytes = .ok (chunks blockPayloadBytes payloadBytes) := by
  by_cases hzero : payloadBytes = 0
  · rw [coapBlocks, if_pos hzero, chunks_of_nonpos hzero.le]
  have hcount : -(0 - payloadBytes).fdiv blockPayloadBytes =
      -(-payloadBytes / blockPayloadBytes) := by
    rw [Int.fdiv_eq_ediv_of_nonneg _ hblock.le, zero_sub]
  have hbelow := Int.ediv_mul_le (-payloadBytes) hblock.ne'
  have habove := Int.lt_ediv_add_one_mul_self (-payloadBytes) hblock
  have hcover : payloadBytes ≤
      (-(-payloadBytes / blockPayloadBytes)).toNat * blockPayloadBytes := by
    have hle := mul_le_mul_of_nonneg_right
      (Int.self_le_toNat (-(-payloadBytes / blockPayloadBytes))) hblock.le
    linarith
  have hlast : ∀ i < (-(-payloadBytes / blockPayloadBytes)).toNat,
      (i : ℤ) * blockPayloadBytes < payloadBytes := by
    intro i hi
    have hi' : (i : ℤ) ≤ -(-payloadBytes / blockPayloadBytes) - 1 := by omega
    have hle := mul_le_mul_of_nonneg_right hi' hblock.le
    linarith
  rw [coapBlocks, if_neg hzero, Python.range, if_neg hblock.ne', hcount]
  refine congrArg Except.ok ?_
  rw [List.map_map, chunks_eq_map_range hblock hcover hlast]
  refine List.map_congr_left fun i _ => ?_
  simp only [Function.comp_apply, zero_add]

def blockTotals (net : NetworkConfig) (blocks : List ℤ) : ℤ × ℤ :=
  (blocks.map fun blockPayload =>
    net.totals (net.linkFrames (blockPayload + net.compressedNetworkHeaderBytes))).sum

theorem addBlock_eq (h : net.Valid) (totals : ℤ × ℤ) (blockPayload : ℤ) :
    addBlock net totals blockPayload = .ok (totals +
      net.totals (net.linkFrames (blockPayload + net.compressedNetworkHeaderBytes))) := by
  rw [addBlock, linkBytesForDatagram_eq h]
  rfl

theorem foldlM_addBlock (h : net.Valid) (blocks : List ℤ) (totals : ℤ × ℤ) :
    blocks.foldlM (addBlock net) totals = .ok (totals + blockTotals net blocks) := by
  induction blocks generalizing totals with
  | nil =>
    rw [blockTotals, List.map_nil, List.sum_nil, add_zero]
    rfl
  | cons blockPayload blocks ih =>
    rw [List.foldlM_cons, addBlock_eq h, blockTotals, List.map_cons, List.sum_cons, ← add_assoc]
    exact ih _

theorem packetize_eq (h : net.Valid) (payloadBytes : ℤ) :
    packetize payloadBytes net =
      let blocks := chunks net.coapBlockPayloadBytes payloadBytes
      .ok ⟨blocks.length, (blockTotals net blocks).2, (blockTotals net blocks).1⟩ := by
  have hblocks := coapBlocks_eq payloadBytes (Int.add_one_le_iff.mp h.block_pos)
  simp only [packetize, hblocks, bind, Except.bind, foldlM_addBlock h, Prod.mk_zero_zero, zero_add]
  rfl

theorem blockTotals_mono (h : net.Valid) {payloadBytes payloadBytes' : ℤ}
    (hle : payloadBytes ≤ payloadBytes') :
    blockTotals net (chunks net.coapBlockPayloadBytes payloadBytes) ≤
      blockTotals net (chunks net.coapBlockPayloadBytes payloadBytes') :=
  sum_map_chunks_le (Int.add_one_le_iff.mp h.block_pos) _
    (fun _ hc => totals_linkFrames_nonneg h (add_nonneg hc.le h.header_nonneg))
    (fun _ _ _ hc => totals_linkFrames_mono h (add_le_add_left hc _)) hle

/-- The accounting is exact: blocks and frames carry what they are made of, their number and bytes
are those of the formulas, and a larger payload costs no less. -/
theorem packetize_exact (h : net.Valid) :
    (∀ payloadBytes ≥ 0, ∃ blocks, coapBlocks payloadBytes net.coapBlockPayloadBytes = .ok blocks ∧
      blocks.sum = payloadBytes ∧ (∀ block ∈ blocks.dropLast, block = net.coapBlockPayloadBytes) ∧
      ∀ block ∈ blocks, 0 < block ∧ block ≤ net.coapBlockPayloadBytes) ∧
    (∀ d ≤ net.phyFrameBytes - net.macOverheadBytes,
      linkBytesForDatagram d net = .ok (net.macOverheadBytes + d, 1)) ∧
    (∀ d > net.phyFrameBytes - net.macOverheadBytes,
      let f := 1 + ⌈((d - net.firstCapacity : ℤ) : ℚ) / net.nextCapacity⌉
      linkBytesForDatagram d net = .ok (d + f * net.macOverheadBytes + net.frag1HeaderBytes +
        (f - 1) * net.fragnHeaderBytes, f)) ∧
    (∀ d, linkBytesForDatagram d net = .ok (net.totals (net.linkFrames d)) ∧
      ((net.linkFrames d).map Frame.payload).sum = d ∧
      ∀ frame ∈ net.linkFrames d, net.frameBytes frame ≤ net.phyFrameBytes) ∧
    ∀ payloadBytes ≥ 0, ∀ payloadBytes' ≥ payloadBytes, ∃ packet packet',
      packetize payloadBytes net = .ok packet ∧ packetize payloadBytes' net = .ok packet' ∧
      packet.ieee802154Frames ≤ packet'.ieee802154Frames ∧
      packet.onAirBytesPerHop ≤ packet'.onAirBytesPerHop := by
  have hblock : 0 < net.coapBlockPayloadBytes := Int.add_one_le_iff.mp h.block_pos
  refine ⟨fun payloadBytes hpayload => ⟨_, coapBlocks_eq payloadBytes hblock,
    sum_chunks hblock hpayload, fun _ => mem_dropLast_chunks hblock, fun _ => mem_chunks hblock⟩,
    fun d hfits => ?_, fun d hlarge => ?_,
    fun d => ⟨linkBytesForDatagram_eq h d, sum_payload_linkFrames h d, fun _ => frameBytes_le h⟩,
    fun payloadBytes _ payloadBytes' hle => ?_⟩
  · rw [linkBytesForDatagram_eq h, linkFrames_of_le hfits]
    simp [frameBytes]
  · rw [linkBytesForDatagram_eq h, totals_of_fragmented h hlarge rfl]
  · have hmono := blockTotals_mono h hle
    exact ⟨_, _, packetize_eq h payloadBytes, packetize_eq h payloadBytes', hmono.2, hmono.1⟩

end

/-- With the sizes that the script runs with, a full block takes six frames. -/
theorem packetize_exact_defaults : linkBytesForDatagram 532 {} = .ok (711, 6) := by
  have hvalid : ({} : NetworkConfig).Valid := by
    constructor <;> decide
  have hexact := (packetize_exact hvalid).2.2.1 532 (by decide)
  have hframes : ⌈((532 - ({} : NetworkConfig).firstCapacity : ℤ) : ℚ) /
      ({} : NetworkConfig).nextCapacity⌉ = 5 := by
    rw [Int.ceil_eq_iff]
    constructor <;> norm_num [firstCapacity, nextCapacity]
  simp only [hframes] at hexact
  exact hexact

end AdaptiveLowpan
