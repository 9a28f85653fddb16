import AdaptiveLowpan.ContikiExchange
import AdaptiveLowpan.Network

/-! # What the server decodes under every schedule

The server is at the start of a window or holds the first blocks of one, whichever requests
reach it in whichever order. What it decodes are whole windows, each once: the last block
of a window is taken under a fresh number, and only one record was sealed for it. -/

namespace AdaptiveLowpan
open ByteWords CheckedMemory CFloat Slices

variable {σ F D : Type}

def ContikiRequest.position (request : ContikiRequest) : Bytes × UInt32 :=
  (request.token, request.block1Number)

def TransferPlan.position (plan : TransferPlan) (i : ℕ) : Bytes × UInt32 :=
  (writeU32Be plan.windowId, UInt32.ofNat i)

def TransferPlan.whole (plan : TransferPlan) : Bytes × Bytes :=
  (writeU32Be plan.windowId, plan.representation)

/-- Windows that the node may send one after the other. -/
structure SendablePlans (overhead : ℕ) (plans : List TransferPlan) : Prop where
  sendable : ∀ plan ∈ plans, plan.Sendable overhead
  ids_nodup : (plans.map (·.windowId)).Nodup

section Positions

variable {P : SecurityProvider σ} {L : RecordLayer P} {key : L.Key} {plans : List TransferPlan}
  {plan plan' : TransferPlan} {i j : ℕ} {request : ContikiRequest}

theorem IsBlockRequest.position_eq (h : IsBlockRequest L key plan i request) :
    request.position = plan.position i := by
  obtain ⟨record, rfl, -⟩ := h
  rfl

theorem SendablePlans.position_inj (h : SendablePlans P.overhead plans) (hplan : plan ∈ plans)
    (hplan' : plan' ∈ plans) (hi : i < plan.blockCount) (hj : j < plan'.blockCount)
    (heq : plan.position i = plan'.position j) : plan = plan' ∧ i = j := by
  have hid : plan.windowId = plan'.windowId := writeU32Be_inj (congrArg Prod.fst heq)
  obtain rfl := List.inj_on_of_nodup_map h.ids_nodup hplan hplan' hid
  exact ⟨rfl, ((h.sendable plan hplan).ofNat_inj hi.le hj.le).mp (congrArg Prod.snd heq)⟩

/-- What the receiver waits for, other than a block 0, belongs to the window it holds. -/
theorem Receiver.Assembled.holds_of_expects {receiver : Receiver σ}
    (h : receiver.Assembled plans) (hplans : SendablePlans P.overhead plans) (hplan : plan ∈ plans)
    (hi : i < plan.blockCount) (hpos : i ≠ 0)
    (hexpects : receiver.expects (plan.sentBlock 0 i []) = true) : receiver.Holds plan i := by
  obtain ⟨hactive, hnumber, htoken⟩ := Receiver.expects_iff.mp hexpects
  have hbounded := hplans.sendable plan hplan
  rcases h with ⟨hstart, -⟩ | ⟨other, hother, j, hj, hnext, hheld, hrep⟩
  · refine absurd ?_ hpos
    exact (hbounded.ofNat_inj hi.le (Nat.zero_le _)).mp (hnumber.trans hstart)
  · have hid : plan.windowId = other.windowId := writeU32Be_inj (htoken.trans hheld)
    obtain rfl := List.inj_on_of_nodup_map hplans.ids_nodup hplan hother hid
    obtain rfl : i = j := (hbounded.ofNat_inj hi.le hj).mp (hnumber.trans hnext)
    exact ⟨hactive, hnext, hheld, hrep⟩

end Positions

/-- The last block of a window has reached the highest number. -/
def Exchange.Closed {P : SecurityProvider σ} (L : RecordLayer P) (e : Exchange σ F D)
    (plan : TransferPlan) : Prop :=
  ∃ request ∈ e.requests, request.position = plan.position (plan.blockCount - 1) ∧
    ∃ h ∈ L.highest e.server.security, recordSequence request.payload ≤ h

/-- The requests are blocks of the windows, no two of them of one block; the server is
between windows or inside one, and what it has decoded are whole windows, each once. -/
structure Exchange.Invariant {P : SecurityProvider σ} (L : RecordLayer P) (key : L.Key)
    (plans : List TransferPlan) (e : Exchange σ F D) : Prop where
  openKey : L.openKey e.server.security = key
  samples : e.server.decoded.samples.length = maxWindow
  requests : ∀ request ∈ e.requests, ∃ plan ∈ plans, ∃ i < plan.blockCount,
    IsBlockRequest L key plan i request
  positions_nodup : (e.requests.map (·.position)).Nodup
  assembled : e.server.transfer.Assembled plans
  whole : ∀ d ∈ e.decoded, ∃ plan ∈ plans, d = plan.whole ∧ e.Closed L plan
  tokens_nodup : (e.decoded.map (·.1)).Nodup

variable [CDouble D] [CFloat F D]

/-- What a delivered block does: the handler refuses it and keeps its session, or takes it. -/
inductive Exchange.Delivers {P : SecurityProvider σ} (L : RecordLayer P) (e : Exchange σ F D)
    (plans : List TransferPlan) (number : ℕ) (plan : TransferPlan) (i : ℕ) (sequence : UInt64) :
    List (ℕ × StatusCode) × Exchange σ F D → Prop where
  | refused {status server} (hstatus : responseHandler (some status.code) = false)
      (hsecurity : server.security = e.server.security)
      (hdecoded : server.decoded = e.server.decoded)
      (hassembled : server.transfer.Assembled plans) :
      Delivers L e plans number plan i sequence ([(number, status)], { e with server })
  | taken {server} (hfresh : ∀ h ∈ L.highest e.server.security, h < sequence)
      (htakes : e.server.Takes L plan i sequence server) :
      Delivers L e plans number plan i sequence ([(number, plan.takenStatus F i)],
        { e with server, decoded := e.decoded ++ decodedBy (plan.takenStatus F i) server })

section Deliver

variable {P : SecurityProvider σ} {L : RecordLayer P} {key : L.Key} {plans : List TransferPlan}
  {e : Exchange σ F D}

theorem Exchange.Invariant.delivers (h : e.Invariant L key plans)
    (hplans : SendablePlans P.overhead plans) {number : ℕ} {request : ContikiRequest}
    {plan : TransferPlan} {i : ℕ} (hget : e.requests[number]? = some request)
    (hplan : plan ∈ plans) (hi : i < plan.blockCount)
    (hrequest : IsBlockRequest L key plan i request) :
    Exchange.Delivers L e plans number plan i (recordSequence request.payload)
      (e.deliver P number) := by
  have hsendable := hplans.sendable plan hplan
  have hrequest' : IsBlockRequest L (L.openKey e.server.security) plan i request :=
    h.openKey.symm ▸ hrequest
  rw [Exchange.deliver, hget]
  simp only
  by_cases hholds : i = 0 ∨ e.server.transfer.Holds plan i
  · by_cases hfresh : ∀ top ∈ L.highest e.server.security, top < recordSequence request.payload
    · obtain ⟨response, server', hhandler, hstatus, htakes⟩ :=
        telemetryPostHandler_next hsendable hi hrequest' hfresh hholds h.samples
      rw [hhandler]
      simp only [hstatus]
      exact .taken hfresh htakes
    · simp only [not_forall, UInt64.not_lt] at hfresh
      obtain ⟨top, htop, hstale⟩ := hfresh
      rw [telemetryPostHandler_stale hsendable hi hrequest' htop hstale hholds]
      simp only [decodedBy, reduceCtorEq, if_false, List.append_nil]
      refine .refused (by decide) (e.server.restart_security _ _) (e.server.restart_decoded _ _) ?_
      have hrestart := e.server.transfer_restart (plan.sentBlock 0 i [])
      exact hrestart ▸ h.assembled.restart _
  · rw [not_or] at hholds
    have hwait : e.server.transfer.expects (plan.sentBlock 0 i []) = false := by
      rw [Bool.eq_false_iff]
      intro hexpects
      exact hholds.2 (h.assembled.holds_of_expects hplans hplan hi hholds.1 hexpects)
    rw [telemetryPostHandler_unexpected hsendable hi hrequest' hholds.1 hwait]
    simp only [decodedBy, reduceCtorEq, if_false, List.append_nil]
    exact .refused (by decide) rfl rfl h.assembled

/-- The last block that is taken makes the server decode the window, if that succeeds. -/
theorem decodedBy_takenStatus {plan : TransferPlan} {i : ℕ} {server : ContikiServer σ F D}
    (hplan : plan.Sendable P.overhead) (hi : i < plan.blockCount)
    (hkeeps : server.Keeps plan (i + 1)) :
    (decodedBy (plan.takenStatus F i) server = [] ∧
      (responseHandler (some (plan.takenStatus F i).code) = true → i + 1 < plan.blockCount)) ∨
    (decodedBy (plan.takenStatus F i) server = [plan.whole] ∧ i = plan.blockCount - 1) := by
  rw [TransferPlan.takenStatus]
  by_cases hmore : i + 1 < plan.blockCount
  · rw [if_pos hmore]
    exact Or.inl ⟨rfl, fun _ => hmore⟩
  rw [if_neg hmore]
  cases decodes F (plan.sentUpTo (i + 1)) with
  | false => exact Or.inl ⟨rfl, fun h => absurd h (by decide)⟩
  | true =>
    have hend : i + 1 = plan.blockCount := by omega
    refine Or.inr ⟨?_, by omega⟩
    have hwhole : server.representation = plan.representation := by
      rw [hkeeps.representation, hend, hplan.sentUpTo_blockCount]
    rw [if_pos rfl, decodedBy, if_pos rfl, hkeeps.token, hwhole]
    rfl

omit [CDouble D] [CFloat F D] in
/-- A window stays closed while the highest number grows. -/
theorem Exchange.Closed.mono {e e' : Exchange σ F D} {plan : TransferPlan} (h : e.Closed L plan)
    (hrequests : ∀ request ∈ e.requests, request ∈ e'.requests)
    (hhighest : ∀ top ∈ L.highest e.server.security,
      ∃ top' ∈ L.highest e'.server.security, top ≤ top') : e'.Closed L plan := by
  obtain ⟨request, hrequest, hposition, top, htop, hle⟩ := h
  obtain ⟨top', htop', hle'⟩ := hhighest top htop
  exact ⟨request, hrequests request hrequest, hposition, top', htop', UInt64.le_trans hle hle'⟩

/-- The server keeps the invariant, forgets no window and has decoded a window whose last
block it acknowledges. -/
theorem Exchange.Delivers.keeps (h : e.Invariant L key plans)
    (hplans : SendablePlans P.overhead plans) {number : ℕ} {request : ContikiRequest}
    {plan : TransferPlan} {i : ℕ} (hmem : request ∈ e.requests) (hplan : plan ∈ plans)
    (hi : i < plan.blockCount) (hrequest : IsBlockRequest L key plan i request)
    {r : List (ℕ × StatusCode) × Exchange σ F D}
    (hr : Exchange.Delivers L e plans number plan i (recordSequence request.payload) r) :
    r.2.Invariant L key plans ∧ r.2.requests = e.requests ∧ (∀ d ∈ e.decoded, d ∈ r.2.decoded) ∧
      ∀ answer ∈ r.1, answer.1 = number ∧ (responseHandler (some answer.2.code) = true →
        i + 1 = plan.blockCount → plan.whole ∈ r.2.decoded) := by
  cases hr with
  | refused hstatus hsecurity hdecoded hassembled =>
    refine ⟨⟨?_, ?_, h.requests, h.positions_nodup, hassembled, ?_, h.tokens_nodup⟩, rfl,
      fun d hd => hd, ?_⟩
    · rw [hsecurity, h.openKey]
    · rw [hdecoded, h.samples]
    · intro d hd
      obtain ⟨other, hother, hwhole, hclosed⟩ := h.whole d hd
      refine ⟨other, hother, hwhole, hclosed.mono (fun _ hreq => hreq) ?_⟩
      intro top htop
      exact ⟨top, by rw [hsecurity]; exact htop, UInt64.le_refl top⟩
    · intro answer hanswer
      rw [List.mem_singleton.mp hanswer]
      refine ⟨rfl, fun hack => ?_⟩
      rw [hstatus] at hack
      cases hack
  | @taken server hfresh htakes =>
    have hsendable := hplans.sendable plan hplan
    have hgrows : ∀ top ∈ L.highest e.server.security,
        ∃ top' ∈ L.highest server.security, top ≤ top' := by
      intro top htop
      exact ⟨_, htakes.highest, UInt64.le_of_lt (hfresh top htop)⟩
    have hassembled : server.transfer.Assembled plans :=
      Or.inr ⟨plan, hplan, i + 1, hi, htakes.keeps.nextBlock, htakes.keeps.token,
        htakes.keeps.representation⟩
    have hold (decoded : List (Bytes × Bytes)) : ∀ d ∈ e.decoded, ∃ other ∈ plans,
        d = other.whole ∧ Exchange.Closed L ⟨server, e.requests, decoded⟩ other := by
      intro d hd
      obtain ⟨other, hother, hwhole, hclosed⟩ := h.whole d hd
      exact ⟨other, hother, hwhole, hclosed.mono (fun _ hreq => hreq) hgrows⟩
    rcases decodedBy_takenStatus hsendable hi htakes.keeps with ⟨hnone, hmore⟩ | ⟨hone, hlast⟩
    · rw [hnone, List.append_nil]
      refine ⟨⟨htakes.openKey.trans h.openKey, htakes.samples.trans h.samples, h.requests,
        h.positions_nodup, hassembled, hold _, h.tokens_nodup⟩, rfl, fun d hd => hd, ?_⟩
      intro answer hanswer
      rw [List.mem_singleton.mp hanswer]
      refine ⟨rfl, fun hack hend => ?_⟩
      exact absurd (hmore hack) (by omega)
    · rw [hone]
      refine ⟨⟨htakes.openKey.trans h.openKey, htakes.samples.trans h.samples, h.requests,
        h.positions_nodup, hassembled, ?_, ?_⟩, rfl, fun d hd => List.mem_append_left _ hd, ?_⟩
      · intro d hd
        rcases List.mem_append.mp hd with hd | hd
        · exact hold _ d hd
        · refine ⟨plan, hplan, List.mem_singleton.mp hd, request, hmem, ?_, _, htakes.highest,
            UInt64.le_refl _⟩
          rw [hrequest.position_eq, hlast]
      · -- a window that was decoded before has its last record below the highest number
        apply nodup_map_concat h.tokens_nodup
        intro d hd hsame
        obtain ⟨other, hother, rfl, earlier, hearlier, hposition, top, htop, hle⟩ := h.whole d hd
        have hid : other.windowId = plan.windowId := writeU32Be_inj hsame
        obtain rfl := List.inj_on_of_nodup_map hplans.ids_nodup hother hplan hid
        have hone : earlier.position = request.position := by
          rw [hposition, hrequest.position_eq, hlast]
        obtain rfl := List.inj_on_of_nodup_map h.positions_nodup hearlier hmem hone
        have hlt := UInt64.lt_of_le_of_lt hle (hfresh top htop)
        exact UInt64.lt_irrefl _ hlt
      · intro answer hanswer
        rw [List.mem_singleton.mp hanswer]
        exact ⟨rfl, fun _ _ => List.mem_append_right _ (List.mem_singleton_self _)⟩

/-- The answers to blocks that close a window tell that it is decoded. -/
def AcknowledgesDecoded {P : SecurityProvider σ} (L : RecordLayer P) (key : L.Key)
    (plans : List TransferPlan) (requests : List ContikiRequest) (decoded : List (Bytes × Bytes))
    (answers : List (ℕ × StatusCode)) : Prop :=
  ∀ answer ∈ answers, responseHandler (some answer.2.code) = true →
    ∀ request, requests[answer.1]? = some request → ∀ plan ∈ plans,
      IsBlockRequest L key plan (plan.blockCount - 1) request → 0 < plan.blockCount →
        plan.whole ∈ decoded

theorem Exchange.Invariant.deliver (h : e.Invariant L key plans)
    (hplans : SendablePlans P.overhead plans) (number : ℕ) :
    (e.deliver P number).2.Invariant L key plans ∧
      (e.deliver P number).2.requests = e.requests ∧
      (∀ d ∈ e.decoded, d ∈ (e.deliver P number).2.decoded) ∧
      AcknowledgesDecoded L key plans e.requests (e.deliver P number).2.decoded
        (e.deliver P number).1 := by
  cases hget : e.requests[number]? with
  | none =>
    rw [Exchange.deliver, hget]
    exact ⟨h, rfl, fun d hd => hd, fun answer hanswer => by cases hanswer⟩
  | some request =>
    have hmem := List.mem_of_getElem? hget
    obtain ⟨plan, hplan, i, hi, hrequest⟩ := h.requests request hmem
    have hdelivers := h.delivers hplans hget hplan hi hrequest
    obtain ⟨hinv, hrequests, hold, hanswers⟩ := hdelivers.keeps h hplans hmem hplan hi hrequest
    refine ⟨hinv, hrequests, hold, ?_⟩
    intro answer hanswer hack request' hget' other hother hlast hpos
    obtain ⟨hnumber, hdecoded⟩ := hanswers answer hanswer
    rw [hnumber, hget] at hget'
    cases hget'
    have hsame := hrequest.position_eq.symm.trans hlast.position_eq
    obtain ⟨rfl, rfl⟩ := hplans.position_inj hplan hother hi (by omega) hsame
    exact hdecoded hack (by omega)

theorem Exchange.Invariant.deliverAll (h : e.Invariant L key plans)
    (hplans : SendablePlans P.overhead plans) (numbers : List ℕ) :
    (e.deliverAll P numbers).2.Invariant L key plans ∧
      (e.deliverAll P numbers).2.requests = e.requests ∧
      (∀ d ∈ e.decoded, d ∈ (e.deliverAll P numbers).2.decoded) ∧
      AcknowledgesDecoded L key plans e.requests (e.deliverAll P numbers).2.decoded
        (e.deliverAll P numbers).1 := by
  induction numbers generalizing e with
  | nil => exact ⟨h, rfl, fun d hd => hd, fun answer hanswer => by cases hanswer⟩
  | cons number numbers ih =>
    obtain ⟨hinv, hrequests, hold, hanswers⟩ := h.deliver hplans number
    obtain ⟨hinv', hrequests', hold', hanswers'⟩ := ih hinv
    rw [Exchange.deliverAll]
    refine ⟨hinv', hrequests'.trans hrequests, fun d hd => hold' d (hold d hd), ?_⟩
    intro answer hanswer hack request hget plan hplan hlast hpos
    rcases List.mem_append.mp hanswer with hanswer | hanswer
    · exact hold' _ (hanswers answer hanswer hack request hget plan hplan hlast hpos)
    · exact hanswers' answer hanswer hack request (hrequests ▸ hget) plan hplan hlast hpos

omit [CDouble D] [CFloat F D] in
theorem Exchange.Invariant.requested (h : e.Invariant L key plans) {plan : TransferPlan} {i : ℕ}
    {request : ContikiRequest} (hplan : plan ∈ plans) (hi : i < plan.blockCount)
    (hrequest : IsBlockRequest L key plan i request)
    (hnew : ∀ earlier ∈ e.requests, earlier.position ≠ plan.position i) :
    Exchange.Invariant L key plans { e with requests := e.requests ++ [request] } := by
  refine ⟨h.openKey, h.samples, ?_, ?_, h.assembled, ?_, h.tokens_nodup⟩
  · intro earlier hearlier
    rcases List.mem_append.mp hearlier with hearlier | hearlier
    · exact h.requests earlier hearlier
    · rw [List.mem_singleton.mp hearlier]
      exact ⟨plan, hplan, i, hi, hrequest⟩
  · apply nodup_map_concat h.positions_nodup
    intro earlier hearlier
    rw [hrequest.position_eq]
    exact hnew earlier hearlier
  · intro d hd
    obtain ⟨other, hother, hwhole, hclosed⟩ := h.whole d hd
    exact ⟨other, hother, hwhole, hclosed.mono (fun _ hreq => List.mem_append_left _ hreq)
      fun top htop => ⟨top, htop, UInt64.le_refl top⟩⟩

/-- Where the node gets an answer that acknowledges the last block of a window, the server has
decoded the window. -/
theorem Exchange.Invariant.request (h : e.Invariant L key plans)
    (hplans : SendablePlans P.overhead plans) {plan : TransferPlan} {i : ℕ}
    {request : ContikiRequest} (hplan : plan ∈ plans) (hi : i < plan.blockCount)
    (hrequest : IsBlockRequest L key plan i request)
    (hnew : ∀ earlier ∈ e.requests, earlier.position ≠ plan.position i)
    (network : ℕ → NetworkTurn) :
    (exchange P network e request).2.2.Invariant L key plans ∧
      (exchange P network e request).2.2.requests = e.requests ++ [request] ∧
      (∀ d ∈ e.decoded, d ∈ (exchange P network e request).2.2.decoded) ∧
      (responseHandler (exchange P network e request).1 = true → i + 1 = plan.blockCount →
        plan.whole ∈ (exchange P network e request).2.2.decoded) := by
  have hstart := h.requested hplan hi hrequest hnew
  obtain ⟨hinv, hrequests, hold, hanswers⟩ :=
    hstart.deliverAll hplans (network e.requests.length).deliveries
  rw [exchange]
  refine ⟨hinv, hrequests, hold, ?_⟩
  intro hack hend
  -- the answer that the node gets is one to this request
  simp only at hack
  cases hanswer : ((network e.requests.length).answer.bind fun j =>
      (((Exchange.deliverAll P { e with requests := e.requests ++ [request] }
        (network e.requests.length).deliveries).1.filter fun answer =>
          answer.1 = e.requests.length).map (·.2))[j]?) with
  | none =>
    rw [hanswer] at hack
    cases hack
  | some status =>
    rw [hanswer] at hack
    obtain ⟨j, -, hj⟩ := Option.bind_eq_some_iff.mp hanswer
    obtain ⟨answer, hmem, rfl⟩ := List.mem_map.mp (List.mem_of_getElem? hj)
    obtain ⟨hmem, hnumber⟩ := List.mem_filter.mp hmem
    have hnumber : answer.1 = e.requests.length := of_decide_eq_true hnumber
    have hget : (e.requests ++ [request])[answer.1]? = some request := by
      rw [hnumber, List.getElem?_concat_length]
    have hlast : i = plan.blockCount - 1 := by omega
    exact hanswers answer hmem hack request hget plan hplan (hlast ▸ hrequest) (by omega)

end Deliver

end AdaptiveLowpan
