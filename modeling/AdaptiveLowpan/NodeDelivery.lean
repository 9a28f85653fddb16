import AdaptiveLowpan.NodeIntegrity

/-! # Which windows arrive when every request reaches the handler

A network that loses nothing hands each request to the server once, or several times in a
row. A node that has restarted begins again at its first sequence number, so the server
refuses its windows until the numbers are above the highest one it remembers. -/

namespace AdaptiveLowpan
open ByteWords CheckedMemory CFloat Slices

variable {F D σ : Type}

/-- Every request reaches the handler, with so many copies behind it, and the node gets the
first of the answers. -/
def repeating (copies : ℕ) (elapsed : ℕ → ℕ) (number : ℕ) : NetworkTurn :=
  ⟨List.replicate (copies + 1) number, some 0, elapsed number⟩

variable [CDouble D] [CFloat F D]

section Repeating

variable {P : SecurityProvider σ} {L : RecordLayer P} {plan : TransferPlan} {i : ℕ}
  {e : Exchange σ F D} {request : ContikiRequest}

/-- The server refuses block `i`: it has its number, or it does not wait for it. -/
def ContikiServer.Rejects (L : RecordLayer P) (server : ContikiServer σ F D) (plan : TransferPlan)
    (i : ℕ) (sequence : UInt64) : Prop :=
  (i = 0 ∧ ∃ h ∈ L.highest server.security, sequence ≤ h) ∨
    (i ≠ 0 ∧ server.transfer.expects (plan.sentBlock 0 i []) = false)

/-- What a refused block leaves behind: block 0 resets the transfer. -/
def ContikiServer.after (server : ContikiServer σ F D) (plan : TransferPlan) (i copies : ℕ) :
    ContikiServer σ F D :=
  if copies = 0 then server
  else server.restart (UInt32.ofNat i) (writeU32Be plan.windowId)

omit [CDouble D] [CFloat F D] in
theorem ContikiServer.Rejects.restart {server : ContikiServer σ F D} {sequence : UInt64}
    (h : server.Rejects L plan i sequence) (hplan : plan.Bounded P.overhead)
    (hi : i < plan.blockCount) :
    (server.restart (UInt32.ofNat i) (writeU32Be plan.windowId)).Rejects L plan i sequence := by
  rcases h with ⟨hzero, hstale⟩ | ⟨hpos, hwait⟩
  · left
    rw [server.restart_security]
    exact ⟨hzero, hstale⟩
  · have hnumber : UInt32.ofNat i ≠ 0 := by
      intro hzero
      exact hpos ((hplan.ofNat_inj hi.le (Nat.zero_le _)).mp hzero)
    rw [ContikiServer.restart, if_neg hnumber]
    exact Or.inr ⟨hpos, hwait⟩

omit [CDouble D] [CFloat F D] in
theorem ContikiServer.restart_restart (server : ContikiServer σ F D) (number : UInt32)
    (token : Bytes) : (server.restart number token).restart number token =
      server.restart number token := by
  by_cases hzero : number = 0
  · rw [restart, restart, if_pos hzero, if_pos hzero]
  · rw [restart, if_neg hzero]

theorem Exchange.deliver_rejected {number : ℕ} (hplan : plan.Sendable P.overhead)
    (hi : i < plan.blockCount) (hget : e.requests[number]? = some request)
    (hrequest : IsBlockRequest L (L.openKey e.server.security) plan i request)
    (hrejects : e.server.Rejects L plan i (recordSequence request.payload)) :
    ∃ status, responseHandler (some status.code) = false ∧ e.deliver P number =
      ([(number, status)], { e with
        server := e.server.restart (UInt32.ofNat i) (writeU32Be plan.windowId) }) := by
  rw [Exchange.deliver, hget]
  simp only
  rcases hrejects with ⟨rfl, h, hh, hstale⟩ | ⟨hpos, hwait⟩
  · rw [telemetryPostHandler_stale hplan hi hrequest hh hstale (Or.inl rfl)]
    simp only [decodedBy, reduceCtorEq, if_false, List.append_nil]
    exact ⟨.unauthorized401, rfl, rfl⟩
  · have hnumber : UInt32.ofNat i ≠ 0 := by
      intro hzero
      exact hpos ((hplan.ofNat_inj hi.le (Nat.zero_le _)).mp hzero)
    rw [telemetryPostHandler_unexpected hplan hi hrequest hpos hwait, ContikiServer.restart,
      if_neg hnumber]
    simp only [decodedBy, reduceCtorEq, if_false, List.append_nil]
    exact ⟨.requestEntityIncomplete408, rfl, rfl⟩

theorem Exchange.deliverAll_rejected {number : ℕ} (hplan : plan.Sendable P.overhead)
    (hi : i < plan.blockCount) (hget : e.requests[number]? = some request)
    (hrequest : IsBlockRequest L (L.openKey e.server.security) plan i request)
    (hrejects : e.server.Rejects L plan i (recordSequence request.payload)) (copies : ℕ) :
    ∃ answers, (∀ answer ∈ answers, answer.1 = number ∧
        responseHandler (some (StatusCode.code answer.2)) = false) ∧ answers.length = copies ∧
      e.deliverAll P (List.replicate copies number) =
        (answers, { e with server := e.server.after plan i copies }) := by
  induction copies generalizing e with
  | zero => exact ⟨[], List.forall_mem_nil _, rfl, rfl⟩
  | succ copies ih =>
    obtain ⟨status, hstatus, hdeliver⟩ := Exchange.deliver_rejected hplan hi hget hrequest hrejects
    have hrequest' : IsBlockRequest L (L.openKey (e.server.restart (UInt32.ofNat i)
        (writeU32Be plan.windowId)).security) plan i request := by
      rw [e.server.restart_security]
      exact hrequest
    obtain ⟨answers, hrefused, hlength, hall⟩ :=
      ih (e := { e with server := e.server.restart (UInt32.ofNat i) (writeU32Be plan.windowId) })
        hget hrequest' (hrejects.restart hplan.toBounded hi)
    refine ⟨(number, status) :: answers, ?_, by rw [List.length_cons, hlength], ?_⟩
    · intro answer hanswer
      rcases List.mem_cons.mp hanswer with rfl | hanswer
      · exact ⟨rfl, hstatus⟩
      · exact hrefused answer hanswer
    · rw [List.replicate_succ, Exchange.deliverAll, hdeliver]
      simp only [hall, List.singleton_append, Prod.mk.injEq, true_and]
      rw [ContikiServer.after, ContikiServer.after, if_neg (Nat.succ_ne_zero copies)]
      by_cases hzero : copies = 0
      · rw [if_pos hzero]
      · rw [if_neg hzero, ContikiServer.restart_restart]

/-- The answer that the node gets is the first one, when all are to its own request. -/
theorem exchange_repeating {copies : ℕ} {elapsed : ℕ → ℕ} {e' : Exchange σ F D} {status : StatusCode}
    {answers : List (ℕ × StatusCode)}
    (hall : Exchange.deliverAll P { e with requests := e.requests ++ [request] }
      (List.replicate (copies + 1) e.requests.length) =
        ((e.requests.length, status) :: answers, e')) :
    exchange P (repeating copies elapsed) e request =
      (some status.code, elapsed e.requests.length, e') := by
  rw [exchange]
  simp only [repeating, hall, List.filter_cons, decide_true, if_true, List.map_cons]
  rfl

theorem exchange_rejected (copies : ℕ) (elapsed : ℕ → ℕ) (hplan : plan.Sendable P.overhead)
    (hi : i < plan.blockCount)
    (hrequest : IsBlockRequest L (L.openKey e.server.security) plan i request)
    (hrejects : e.server.Rejects L plan i (recordSequence request.payload)) :
    ∃ status, responseHandler (some (StatusCode.code status)) = false ∧
      exchange P (repeating copies elapsed) e request = (some status.code,
        elapsed e.requests.length, { e with
          server := e.server.restart (UInt32.ofNat i) (writeU32Be plan.windowId)
          requests := e.requests ++ [request] }) := by
  obtain ⟨answers, hrefused, hlength, hall⟩ := Exchange.deliverAll_rejected
    (e := { e with requests := e.requests ++ [request] }) hplan hi
    List.getElem?_concat_length hrequest hrejects (copies + 1)
  cases answers with
  | nil => cases hlength
  | cons answer answers =>
    obtain ⟨number, status⟩ := answer
    obtain ⟨rfl, hstatus⟩ := hrefused _ List.mem_cons_self
    refine ⟨status, hstatus, ?_⟩
    rw [exchange_repeating hall, ContikiServer.after, if_neg (Nat.succ_ne_zero copies)]

/-- A request that the server takes, and whose copies it refuses. -/
theorem exchange_taken (copies : ℕ) (elapsed : ℕ → ℕ) (hplan : plan.Sendable P.overhead)
    (hi : i < plan.blockCount)
    (hrequest : IsBlockRequest L (L.openKey e.server.security) plan i request)
    (hfresh : ∀ h ∈ L.highest e.server.security, h < recordSequence request.payload)
    (hholds : i = 0 ∨ e.server.transfer.Holds plan i)
    (hsamples : e.server.decoded.samples.length = maxWindow) :
    ∃ server, e.server.Takes L plan i (recordSequence request.payload) server ∧
      exchange P (repeating copies elapsed) e request = (some (plan.takenStatus F i).code,
        elapsed e.requests.length, ⟨server.after plan i copies, e.requests ++ [request],
          e.decoded ++ decodedBy (plan.takenStatus F i) server⟩) := by
  obtain ⟨response, server, hhandler, hstatus, htakes⟩ :=
    telemetryPostHandler_next hplan hi hrequest hfresh hholds hsamples
  refine ⟨server, htakes, ?_⟩
  have hdeliver : Exchange.deliver P { e with requests := e.requests ++ [request] }
      e.requests.length = ([(e.requests.length, plan.takenStatus F i)],
        ⟨server, e.requests ++ [request],
          e.decoded ++ decodedBy (plan.takenStatus F i) server⟩) := by
    rw [Exchange.deliver, List.getElem?_concat_length]
    simp only [hhandler, hstatus]
  -- the copies have the number that is now the highest, or come for a block that is past
  have hrejects : server.Rejects L plan i (recordSequence request.payload) := by
    by_cases hzero : i = 0
    · exact Or.inl ⟨hzero, _, htakes.highest, UInt64.le_refl _⟩
    · refine Or.inr ⟨hzero, ?_⟩
      rw [Bool.eq_false_iff]
      intro hexpects
      obtain ⟨-, hnumber, -⟩ := Receiver.expects_iff.mp hexpects
      have hnext : UInt32.ofNat i = UInt32.ofNat (i + 1) := hnumber.trans htakes.keeps.nextBlock
      have hsame := (hplan.ofNat_inj hi.le hi).mp hnext
      omega
  have hrequest' : IsBlockRequest L (L.openKey server.security) plan i request := by
    rw [htakes.openKey]
    exact hrequest
  obtain ⟨answers, -, -, hall⟩ := Exchange.deliverAll_rejected
    (e := ⟨server, e.requests ++ [request], e.decoded ++ decodedBy (plan.takenStatus F i) server⟩)
    hplan hi List.getElem?_concat_length hrequest' hrejects copies
  have hanswers : Exchange.deliverAll P { e with requests := e.requests ++ [request] }
      (List.replicate (copies + 1) e.requests.length) =
        ((e.requests.length, plan.takenStatus F i) :: answers,
          ⟨server.after plan i copies, e.requests ++ [request],
            e.decoded ++ decodedBy (plan.takenStatus F i) server⟩) := by
    rw [List.replicate_succ, Exchange.deliverAll, hdeliver]
    simp only [hall, List.singleton_append]
  exact exchange_repeating hanswers

end Repeating

/-! ## The loop over the blocks -/

section Loop

variable {P : SecurityProvider σ} {L : RecordLayer P} {plan : TransferPlan} {i : ℕ}
  {clockSecond copies : ℕ} {elapsed : ℕ → ℕ} {n n' : NodeState σ (Exchange σ F D × ContikiObserver D)}

/-- Both sessions have one key, and the server can decode. -/
structure NodeState.Paired (L : RecordLayer P)
    (n : NodeState σ (Exchange σ F D × ContikiObserver D)) : Prop where
  keys : L.sealKey n.security = L.openKey n.transport.1.server.security
  samples : n.transport.1.server.decoded.samples.length = maxWindow

omit [CDouble D] [CFloat F D] in
/-- What the node requests for block `i`: the record has its next number. -/
theorem NodeState.Paired.seals (hpaired : n.Paired L) (hseals : SealSucceeds P)
    (hplan : plan.Sendable P.overhead) (i : ℕ) :
    ∃ record security,
      P.sealFn n.security (plan.slice i) (plan.aad i) maxBlockSize = (.ok record, security) ∧
      L.sealKey security = L.sealKey n.security ∧
      L.sequence security = L.sequence n.security + 1 ∧
      recordSequence (plan.blockRequest i record).payload = L.sequence n.security ∧
      IsBlockRequest L (L.openKey n.transport.1.server.security) plan i
        (plan.blockRequest i record) := by
  have hroom := hplan.length_slice_le i
  have hblock := hplan.blockSize_le
  obtain ⟨record, security, hseal, -⟩ := hseals n.security (plan.slice i) (plan.aad i) maxBlockSize
    (by omega)
  obtain ⟨hrecord, hnumber, hnext, hlength⟩ := L.seal_ok hseal
  obtain ⟨hkey, -, -⟩ := L.seal_keeps hseal
  exact ⟨record, security, hseal, hkey, hnext, hnumber,
    isBlockRequest_of_seal (hpaired.keys ▸ hrecord) hlength⟩

theorem nodeLoop_rejected (hseals : SealSucceeds P) (hplan : plan.Sendable P.overhead)
    (hi : i < plan.blockCount) (hpaired : n.Paired L) (hat : n.At plan i)
    (hrejects : n.transport.1.server.Rejects L plan i (L.sequence n.security)) {turns : ℕ}
    (h : nodeLoop P (observedRequest clockSecond (exchange P (repeating copies elapsed))) plan
      (turns + 1) n = some n') :
    n'.Paired L ∧ L.sequence n'.security = L.sequence n.security + 1 ∧
      L.highest n'.transport.1.server.security = L.highest n.transport.1.server.security ∧
      n'.representationOffset < plan.representation.length ∧
      n'.transport.1.decoded = n.transport.1.decoded := by
  obtain ⟨record, security, hseal, hkey, hnext, hnumber, hrequest⟩ := hpaired.seals hseals hplan i
  have hrejects' : n.transport.1.server.Rejects L plan i
      (recordSequence (plan.blockRequest i record).payload) := by
    rw [hnumber]
    exact hrejects
  obtain ⟨status, hstatus, hexchange⟩ :=
    exchange_rejected copies elapsed hplan hi hrequest hrejects'
  obtain ⟨n₁, hturn, hsecurity, htransport, hoffset⟩ := nodeTurn_of_seal
    (observedRequest clockSecond (exchange P (repeating copies elapsed))) hat hplan.toValid hseal
  have hgoes := (hat.goes_on_iff hplan.toValid).mpr hi
  simp only [observedRequest, hexchange, hstatus] at hturn htransport hoffset
  rw [nodeLoop, if_pos hgoes, hturn] at h
  cases h
  rw [if_neg Bool.false_ne_true] at hoffset
  rw [hoffset, hsecurity, htransport]
  refine ⟨⟨?_, ?_⟩, hnext, ?_, hgoes, rfl⟩
  · rw [hsecurity, htransport, hkey, ContikiServer.restart_security]
    exact hpaired.keys
  · rw [htransport, ContikiServer.restart_decoded]
    exact hpaired.samples
  · rw [ContikiServer.restart_security]

omit [CDouble D] [CFloat F D] in
/-- After a copy of block 0, the server does not wait for block 1. -/
theorem ContikiServer.rejects_one {server : ContikiServer σ F D} {sequence : UInt64}
    (hplan : plan.Bounded P.overhead) (hone : 1 < plan.blockCount) :
    (server.restart (UInt32.ofNat 0) (writeU32Be plan.windowId)).Rejects L plan 1 sequence := by
  refine Or.inr ⟨Nat.one_ne_zero, ?_⟩
  rw [Bool.eq_false_iff]
  intro hexpects
  obtain ⟨-, hnumber, -⟩ := Receiver.expects_iff.mp hexpects
  have hsame : UInt32.ofNat 1 = UInt32.ofNat 0 := hnumber
  exact absurd ((hplan.ofNat_inj hone.le (Nat.zero_le _)).mp hsame) Nat.one_ne_zero

/-- Whether a window that starts fresh arrives, when its blocks below `i` have. -/
def TransferPlan.Arrives (F : Type) [CFloat F D] (plan : TransferPlan) (copies i : ℕ) : Prop :=
  decodes F plan.representation = true ∧ (copies = 0 ∨ i + 1 = plan.blockCount)

instance (plan : TransferPlan) (copies i : ℕ) : Decidable (plan.Arrives F copies i) :=
  inferInstanceAs (Decidable (_ ∧ _))

/-- What the loop leaves behind when it starts at a block with a fresh number. -/
structure NodeState.Settled (L : RecordLayer P) (plan : TransferPlan) (copies i : ℕ)
    (n n' : NodeState σ (Exchange σ F D × ContikiObserver D)) : Prop where
  paired : n'.Paired L
  sequence_le : (L.sequence n'.security).toNat ≤
    (L.sequence n.security).toNat + (plan.blockCount - i)
  fresh : ∀ h ∈ L.highest n'.transport.1.server.security, h < L.sequence n'.security
  finished : plan.representation.length ≤ n'.representationOffset ↔ plan.Arrives F copies i
  decoded : n'.transport.1.decoded =
    n.transport.1.decoded ++ if plan.Arrives F copies i then [plan.whole] else []

omit [CDouble D] [CFloat F D] in
theorem ContikiServer.after_security (server : ContikiServer σ F D) (plan : TransferPlan)
    (i copies : ℕ) : (server.after plan i copies).security = server.security := by
  rw [after]
  split
  · rfl
  · exact server.restart_security _ _

omit [CDouble D] [CFloat F D] in
theorem ContikiServer.after_decoded (server : ContikiServer σ F D) (plan : TransferPlan)
    (i copies : ℕ) : (server.after plan i copies).decoded = server.decoded := by
  rw [after]
  split
  · rfl
  · exact server.restart_decoded _ _

/-- A turn of the loop whose block the server has taken, and its copies have been refused. -/
structure NodeState.Advances (L : RecordLayer P) (plan : TransferPlan) (copies i : ℕ)
    (n n₁ : NodeState σ (Exchange σ F D × ContikiObserver D)) (server : ContikiServer σ F D) :
    Prop where
  takes : n.transport.1.server.Takes L plan i (L.sequence n.security) server
  after : n₁.transport.1.server = server.after plan i copies
  paired : n₁.Paired L
  sequence : (L.sequence n₁.security).toNat = (L.sequence n.security).toNat + 1
  fresh : ∀ h ∈ L.highest n₁.transport.1.server.security, h < L.sequence n₁.security
  decoded : n₁.transport.1.decoded =
    n.transport.1.decoded ++ decodedBy (plan.takenStatus F i) server
  next : if responseHandler (some (plan.takenStatus F i).code) then n₁.At plan (i + 1)
    else n₁.representationOffset = n.representationOffset

theorem nodeTurn_fresh (clockSecond copies : ℕ) (elapsed : ℕ → ℕ) (hseals : SealSucceeds P)
    (hplan : plan.Sendable P.overhead) (hi : i < plan.blockCount) (hpaired : n.Paired L)
    (hat : n.At plan i)
    (hfresh : ∀ h ∈ L.highest n.transport.1.server.security, h < L.sequence n.security)
    (hholds : i = 0 ∨ n.transport.1.server.transfer.Holds plan i)
    (hwrap : (L.sequence n.security).toNat + 1 < 2 ^ 64) :
    ∃ n₁ server, nodeTurn P (observedRequest clockSecond (exchange P (repeating copies elapsed)))
        plan n = (responseHandler (some (plan.takenStatus F i).code), n₁) ∧
      n.Advances L plan copies i n₁ server := by
  obtain ⟨record, security, hseal, hkey, hnext, hnumber, hrequest⟩ := hpaired.seals hseals hplan i
  obtain ⟨server, htakes, hexchange⟩ := exchange_taken copies elapsed hplan hi hrequest
    (hnumber ▸ hfresh) hholds hpaired.samples
  rw [hnumber] at htakes
  obtain ⟨n₁, hturn, hsecurity, htransport, hgoes⟩ := nodeTurn_of_seal
    (observedRequest clockSecond (exchange P (repeating copies elapsed))) hat hplan.toValid hseal
  simp only [observedRequest, hexchange] at hturn htransport hgoes
  have hserver : n₁.transport.1.server = server.after plan i copies := by rw [htransport]
  -- the next number is above the one that the server has accepted
  have hone : (L.sequence n₁.security).toNat = (L.sequence n.security).toNat + 1 := by
    rw [hsecurity, hnext, UInt64.toNat_add, UInt64.toNat_one]
    omega
  refine ⟨n₁, server, hturn, htakes, hserver, ⟨?_, ?_⟩, hone, ?_, by rw [htransport], hgoes⟩
  · rw [hserver, hsecurity, ContikiServer.after_security, htakes.openKey, hkey, hpaired.keys]
  · rw [hserver, ContikiServer.after_decoded, htakes.samples, hpaired.samples]
  · intro top htop
    rw [hserver, ContikiServer.after_security, htakes.highest] at htop
    cases htop
    rw [UInt64.lt_iff_toNat_lt, hone]
    exact Nat.lt_succ_self _

section Advances

variable {n₁ : NodeState σ (Exchange σ F D × ContikiObserver D)} {server : ContikiServer σ F D}

theorem NodeState.Advances.more (h : n.Advances L plan copies i n₁ server)
    (hmore : i + 1 < plan.blockCount) :
    n₁.At plan (i + 1) ∧ n₁.transport.1.decoded = n.transport.1.decoded := by
  have hstatus : plan.takenStatus F i = .continue231 := if_pos hmore
  have hnext := h.next
  have hdecoded := h.decoded
  rw [hstatus] at hnext hdecoded
  rw [decodedBy, if_neg (by decide), List.append_nil] at hdecoded
  exact ⟨hnext, hdecoded⟩

/-- Without copies, the server waits for the next block. -/
theorem NodeState.Advances.holds (h : n.Advances L plan copies i n₁ server)
    (hmore : i + 1 < plan.blockCount) (hzero : copies = 0) :
    n₁.transport.1.server.transfer.Holds plan (i + 1) := by
  rw [h.after, ContikiServer.after, if_pos hzero]
  exact ⟨h.takes.active hmore, h.takes.keeps.nextBlock, h.takes.keeps.token,
    h.takes.keeps.representation⟩

theorem NodeState.Advances.settled_next (h : n.Advances L plan copies i n₁ server)
    (hmore : i + 1 < plan.blockCount) (hzero : copies = 0)
    (hrest : n₁.Settled L plan copies (i + 1) n') : n.Settled L plan copies i n' := by
  have harrives : plan.Arrives F copies (i + 1) ↔ plan.Arrives F copies i := by
    simp only [TransferPlan.Arrives, hzero, true_or]
  refine ⟨hrest.paired, ?_, hrest.fresh, hrest.finished.trans harrives, ?_⟩
  · have hle := hrest.sequence_le
    have hone := h.sequence
    omega
  · rw [hrest.decoded, (h.more hmore).2, if_congr harrives rfl rfl]

/-- The copy of block 0 has reset the transfer, so block 1 is refused. -/
theorem NodeState.Advances.settled_reset (h : n.Advances L plan copies 0 n₁ server)
    (hseals : SealSucceeds P) (hplan : plan.Sendable P.overhead) (hmore : 1 < plan.blockCount)
    (hcopies : copies ≠ 0) (hwrap : (L.sequence n.security).toNat + plan.blockCount < 2 ^ 64)
    {turns : ℕ} (hloop : nodeLoop P (observedRequest clockSecond
      (exchange P (repeating copies elapsed))) plan turns n₁ = some n') :
    n.Settled L plan copies 0 n' := by
  obtain ⟨hat, hdecoded⟩ := h.more hmore
  have hnot : ¬plan.Arrives F copies 0 := by
    rintro ⟨-, hnone | hend⟩
    · exact hcopies hnone
    · omega
  have hreset : n₁.transport.1.server.Rejects L plan 1 (L.sequence n₁.security) := by
    rw [h.after, ContikiServer.after, if_neg hcopies]
    exact ContikiServer.rejects_one hplan.toBounded hmore
  cases turns with
  | zero =>
    rw [nodeLoop, if_pos ((hat.goes_on_iff hplan.toValid).mpr hmore)] at hloop
    cases hloop
  | succ turns =>
    obtain ⟨hpaired, hsequence, hhighest, hoffset, hkept⟩ :=
      nodeLoop_rejected hseals hplan hmore h.paired hat hreset hloop
    have htwo : (L.sequence n'.security).toNat = (L.sequence n.security).toNat + 2 := by
      rw [hsequence, UInt64.toNat_add, h.sequence, UInt64.toNat_one]
      omega
    refine ⟨hpaired, by omega, ?_, ?_, ?_⟩
    · intro top htop
      rw [hhighest] at htop
      have hlt := UInt64.lt_iff_toNat_lt.mp (h.fresh top htop)
      have hone := h.sequence
      rw [UInt64.lt_iff_toNat_lt]
      omega
    · exact iff_of_false (Nat.not_le.mpr hoffset) hnot
    · rw [hkept, hdecoded, if_neg hnot, List.append_nil]

/-- Behind the last block, the window has arrived if the decoder accepts it. -/
theorem NodeState.Advances.settled_last (h : n.Advances L plan copies i n₁ server)
    (hplan : plan.Sendable P.overhead) (hend : i + 1 = plan.blockCount)
    (hgoes : n.representationOffset < plan.representation.length) :
    n.Settled L plan copies i n₁ := by
  have hwhole : plan.sentUpTo (i + 1) = plan.representation := by
    rw [hend, hplan.sentUpTo_blockCount]
  have hstatus : plan.takenStatus F i =
      if decodes F plan.representation then .changed204 else .badRequest400 := by
    rw [TransferPlan.takenStatus, if_neg (by omega), hwhole]
  have hnext := h.next
  have hdecoded := h.decoded
  have hone := h.sequence
  rw [hstatus] at hnext hdecoded
  cases hdecodes : decodes F plan.representation with
  | false =>
    have hnot : ¬plan.Arrives F copies i := by
      rintro ⟨htrue, -⟩
      rw [hdecodes] at htrue
      cases htrue
    rw [hdecodes] at hnext hdecoded
    have hoffset : n₁.representationOffset = n.representationOffset := hnext
    refine ⟨h.paired, by omega, h.fresh, ?_, ?_⟩
    · rw [hoffset]
      exact iff_of_false (Nat.not_le.mpr hgoes) hnot
    · rw [hdecoded, if_neg hnot]
      rfl
  | true =>
    have harrives : plan.Arrives F copies i := ⟨hdecodes, Or.inr hend⟩
    rw [hdecodes] at hnext hdecoded
    have hat : n₁.At plan (i + 1) := hnext
    have hdone : ¬n₁.representationOffset < plan.representation.length := by
      rw [hat.goes_on_iff hplan.toValid]
      omega
    refine ⟨h.paired, by omega, h.fresh, ?_, ?_⟩
    · exact iff_of_true (Nat.le_of_not_lt hdone) harrives
    · rw [hdecoded, if_pos harrives, if_pos rfl, decodedBy, if_pos rfl, h.takes.keeps.token,
        h.takes.keeps.representation, hwhole]
      rfl

end Advances

omit [CDouble D] [CFloat F D] in
theorem nodeLoop_of_done {request : BlockingRequest (Exchange σ F D × ContikiObserver D)}
    (h : ¬n.representationOffset < plan.representation.length) (turns : ℕ) :
    nodeLoop P request plan turns n = some n := by
  cases turns with
  | zero => exact if_neg h
  | succ turns => exact if_neg h

/-- The loop from a block on that the server waits for and whose number is fresh. -/
theorem nodeLoop_fresh (hseals : SealSucceeds P) (hplan : plan.Sendable P.overhead)
    (hi : i < plan.blockCount) (hpaired : n.Paired L) (hat : n.At plan i)
    (hfresh : ∀ h ∈ L.highest n.transport.1.server.security, h < L.sequence n.security)
    (hholds : i = 0 ∨ n.transport.1.server.transfer.Holds plan i) (hcopies : copies = 0 ∨ i = 0)
    (hwrap : (L.sequence n.security).toNat + (plan.blockCount - i) < 2 ^ 64) {turns : ℕ}
    (h : nodeLoop P (observedRequest clockSecond (exchange P (repeating copies elapsed))) plan turns
      n = some n') :
    n.Settled L plan copies i n' := by
  induction turns generalizing i n with
  | zero =>
    rw [nodeLoop, if_pos ((hat.goes_on_iff hplan.toValid).mpr hi)] at h
    cases h
  | succ turns ih =>
    obtain ⟨n₁, server, hturn, hadvances⟩ := nodeTurn_fresh clockSecond copies elapsed hseals hplan
      hi hpaired hat hfresh hholds (by omega)
    have hgoes := (hat.goes_on_iff hplan.toValid).mpr hi
    rw [nodeLoop, if_pos hgoes, hturn] at h
    by_cases hmore : i + 1 < plan.blockCount
    · have hstatus : plan.takenStatus F i = .continue231 := if_pos hmore
      rw [hstatus] at h
      by_cases hzero : copies = 0
      · have hone := hadvances.sequence
        have hrest := ih hmore hadvances.paired (hadvances.more hmore).1 hadvances.fresh
          (Or.inr (hadvances.holds hmore hzero)) (Or.inl hzero) (by omega) h
        exact hadvances.settled_next hmore hzero hrest
      · obtain rfl : i = 0 := hcopies.resolve_left hzero
        exact hadvances.settled_reset hseals hplan hmore hzero hwrap h
    · have hend : i + 1 = plan.blockCount := by omega
      have hsettled := hadvances.settled_last hplan hend hgoes
      have hstop : n₁ = n' := by
        cases hanswer : responseHandler (some (plan.takenStatus F i).code) with
        | false =>
          rw [hanswer] at h
          exact Option.some.inj h
        | true =>
          have hnext := hadvances.next
          rw [if_pos hanswer] at hnext
          have hdone : ¬n₁.representationOffset < plan.representation.length := by
            rw [hnext.goes_on_iff hplan.toValid]
            omega
          rw [hanswer] at h
          exact Option.some.inj ((nodeLoop_of_done hdone turns).symm.trans h)
      exact hstop ▸ hsettled

def NodeState.gap (L : RecordLayer P) (n : NodeState σ (Exchange σ F D × ContikiObserver D)) : ℕ :=
  L.gap n.security n.transport.1.server.security

/-- A whole window: the first numbers above the gap are fresh, every other one is refused at
block 0. -/
theorem nodeLoop_window (hseals : SealSucceeds P) (hplan : plan.Sendable P.overhead)
    (hcount : 0 < plan.blockCount) (hpaired : n.Paired L) (hat : n.At plan 0)
    (hwrap : (L.sequence n.security).toNat + plan.blockCount < 2 ^ 64) {turns : ℕ}
    (h : nodeLoop P (observedRequest clockSecond (exchange P (repeating copies elapsed))) plan turns
      n = some n') :
    n'.Paired L ∧
      (L.sequence n'.security).toNat ≤ (L.sequence n.security).toNat + plan.blockCount ∧
      n'.gap L = n.gap L - 1 ∧
      (plan.representation.length ≤ n'.representationOffset ↔
        n.gap L = 0 ∧ plan.Arrives F copies 0) ∧
      n'.transport.1.decoded = n.transport.1.decoded ++
        if n.gap L = 0 ∧ plan.Arrives F copies 0 then [plan.whole] else [] := by
  by_cases hzero : n.gap L = 0
  · have hsettled := nodeLoop_fresh hseals hplan hcount hpaired hat
      (RecordLayer.gap_eq_zero.mp hzero) (Or.inl rfl) (Or.inr rfl) hwrap h
    have hnone : n'.gap L = 0 := RecordLayer.gap_eq_zero.mpr hsettled.fresh
    simp only [hzero, true_and]
    exact ⟨hsettled.paired, hsettled.sequence_le, hnone, hsettled.finished, hsettled.decoded⟩
  · have hstale : ∃ top ∈ L.highest n.transport.1.server.security, L.sequence n.security ≤ top := by
      have hnot := mt RecordLayer.gap_eq_zero.mpr hzero
      simp only [not_forall, UInt64.not_lt] at hnot
      obtain ⟨top, htop, hle⟩ := hnot
      exact ⟨top, htop, hle⟩
    cases turns with
    | zero =>
      have hnone := (if_pos ((hat.goes_on_iff hplan.toValid).mpr hcount)).symm.trans h
      cases hnone
    | succ turns =>
      obtain ⟨hpaired', hsequence, hhighest, hoffset, hkept⟩ :=
        nodeLoop_rejected hseals hplan hcount hpaired hat (Or.inl ⟨rfl, hstale⟩) h
      have hone : (L.sequence n'.security).toNat = (L.sequence n.security).toNat + 1 := by
        rw [hsequence, UInt64.toNat_add, UInt64.toNat_one]
        omega
      simp only [hzero, false_and, if_false, List.append_nil, iff_false, not_le]
      refine ⟨hpaired', by omega, ?_, hoffset, hkept⟩
      rw [NodeState.gap, NodeState.gap, RecordLayer.gap, RecordLayer.gap, hhighest, hone]
      cases L.highest n.transport.1.server.security with
      | none => rfl
      | some top =>
        simp only
        omega

end Loop

/-! ## The process -/

def sentWindows (reports : List (NodeReport D)) : List (EncodedWindow D × Bool) :=
  reports.filterMap fun
    | .sent window finished => some (window, finished)
    | _ => none

/-- Whether a window arrives, once its first number is fresh. -/
def EncodedWindow.Arrives (F : Type) [CFloat F D] (overhead copies : ℕ) (config : AdaptiveConfig D)
    (window : EncodedWindow D) : Prop :=
  decodes F window.representation = true ∧ (copies = 0 ∨
    window.representation.length + overhead ≤ coapBlockSize (config.blockSzx window.state))

def EncodedWindow.Encoded (F : Type) [CFloat F D] (config : AdaptiveConfig D)
    (window : EncodedWindow D) : Prop :=
  ∃ samples : List F, codecEncode samples window.windowId window.state config maxRepresentation =
    .ok (window.representation, window.metadata)

/-- What the codec has written with a scale that the decoder accepts. -/
theorem EncodedWindow.Encoded.decodes {config : AdaptiveConfig D} {window : EncodedWindow D}
    (h : window.Encoded F config) (hconfig : configValidate config = .ok ())
    (hbits : ∀ x : F, ofBits (toBits x) = x)
    (hscale : GoodScale F window.metadata.coefficientScale) :
    decodes F window.representation = true := by
  obtain ⟨samples, hencode⟩ := h
  have haccepted := configAccepted_of_validate hconfig
  have hroom : config.windowSize ≤ (List.replicate maxWindow (zeroFloat : F)).length := by
    rw [List.length_replicate]
    exact haccepted.geometry.count_le
  obtain ⟨a, -, -, hround⟩ := roundTrip_of_encode haccepted hbits hencode hscale
    ⟨List.replicate maxWindow zeroFloat, 0, none⟩ hroom
  obtain ⟨samples', -, -, hdecode⟩ := hround.decode
  rw [AdaptiveLowpan.decodes, hdecode]
  rfl

instance (overhead copies : ℕ) (config : AdaptiveConfig D) (window : EncodedWindow D) :
    Decidable (window.Arrives F overhead copies config) :=
  inferInstanceAs (Decidable (_ ∧ _))

section Process

variable {P : SecurityProvider σ} {L : RecordLayer P} {config : AdaptiveConfig D}
  {node : NodeProcess D σ (Exchange σ F D)}

/-- Both sessions have one key, and the server can decode. -/
structure NodeProcess.Paired (L : RecordLayer P) (node : NodeProcess D σ (Exchange σ F D)) :
    Prop where
  keys : L.sealKey node.security = L.openKey node.transport.server.security
  samples : node.transport.server.decoded.samples.length = maxWindow

def NodeProcess.gap (L : RecordLayer P) (node : NodeProcess D σ (Exchange σ F D)) : ℕ :=
  L.gap node.security node.transport.server.security

theorem TransferPlan.arrives_iff {plan : TransferPlan} {window : EncodedWindow D} {copies : ℕ}
    (hplan : plan.Sendable P.overhead) (hcount : 0 < plan.blockCount)
    (hrep : plan.representation = window.representation)
    (hszx : plan.szx = config.blockSzx window.state) :
    plan.Arrives F copies 0 ↔ window.Arrives F P.overhead copies config := by
  have hone : 0 + 1 = plan.blockCount ↔
      window.representation.length + P.overhead ≤ coapBlockSize (config.blockSzx window.state) := by
    have hmore := hplan.lt_blockCount (i := 1)
    have hsize := hplan.blockSize_eq
    have hadd := hplan.capacity_add
    rw [hszx] at hsize
    rw [hrep] at hmore
    omega
  rw [TransferPlan.Arrives, EncodedWindow.Arrives, hrep, hone]

theorem nodeIteration_repeating (hseals : SealSucceeds P) (hpaired : node.Paired L)
    (hwrap : (L.sequence node.security).toNat + maxRepresentation < 2 ^ 64)
    (clockSecond copies : ℕ) (elapsed : ℕ → ℕ) (readings : PlatformReadings F D config.windowSize) :
    ∃ report node', nodeIteration clockSecond P (exchange P (repeating copies elapsed)) config node
        readings = some (report, node') ∧ node'.Paired L ∧
      (L.sequence node'.security).toNat ≤ (L.sequence node.security).toNat + maxRepresentation ∧
      node'.gap L = node.gap L - (sentWindows [report]).length ∧
      node'.transport.decoded = node.transport.decoded ++
        ((sentWindows [report]).filter (·.2)).map (·.1.whole) ∧
      ∀ window finished, report = .sent window finished →
        (finished = true ↔ node.gap L = 0 ∧ window.Arrives F P.overhead copies config) ∧
          window.Encoded F config := by
  rw [nodeIteration]
  cases hencode : nodeEncode config node readings with
  | mk r encoded =>
    obtain ⟨hobserver, hsecurity, hid, htransport⟩ := nodeEncode_keeps hencode
    have hpaired' : encoded.Paired L := by
      refine ⟨?_, ?_⟩
      · rw [hsecurity, htransport, hpaired.keys]
      · rw [htransport, hpaired.samples]
    have hgap : encoded.gap L = node.gap L := by
      rw [NodeProcess.gap, NodeProcess.gap, hsecurity, htransport]
    cases r with
    | error e =>
      exact ⟨_, _, rfl, hpaired', by rw [hsecurity]; omega, hgap,
        by rw [htransport]; exact (List.append_nil _).symm, fun _ _ hsent => by cases hsent⟩
    | ok window =>
      simp only
      cases hnode : nodePlan P.overhead config window with
      | none =>
        exact ⟨_, _, rfl, hpaired', by rw [hsecurity]; omega, hgap,
          by rw [htransport]; exact (List.append_nil _).symm, fun _ _ hsent => by cases hsent⟩
      | some plan =>
        obtain ⟨hpos, hbuffer⟩ := nodeEncode_length hencode
        obtain ⟨hplan, hplanid, hrep, hszx⟩ := nodePlan_eq_some hnode hbuffer
        have hcount : 0 < plan.blockCount := by
          apply hplan.lt_blockCount.mpr
          rw [Nat.zero_mul, hrep]
          exact hpos
        have hwhole : plan.whole = window.whole := by
          rw [TransferPlan.whole, EncodedWindow.whole, hplanid, hrep]
        have hat := NodeState.at_zero plan encoded.security (encoded.transport, encoded.observer)
        have hstart : NodeState.Paired L
            ⟨encoded.security, 0, 0, (encoded.transport, encoded.observer)⟩ :=
          ⟨hpaired'.keys, hpaired'.samples⟩
        have hblocks : plan.blockCount ≤ plan.representation.length := hplan.blockCount_le
        have hlength : plan.representation.length ≤ maxRepresentation := hplan.length_le
        have hend : ∃ n, nodeLoop P (observedRequest clockSecond
            (exchange P (repeating copies elapsed))) plan plan.representation.length
            ⟨encoded.security, 0, 0, (encoded.transport, encoded.observer)⟩ = some n :=
          nodeLoop_total hat hplan.toValid (by omega)
        obtain ⟨n, hloop⟩ := hend
        rw [← hsecurity] at hwrap ⊢
        rw [← hgap, ← htransport]
        simp only [hloop]
        obtain ⟨hpaired', hsequence, hgap', hfinished, hdecoded⟩ :=
          nodeLoop_window hseals hplan hcount hstart hat
            (by change (L.sequence encoded.security).toNat + _ < _; omega) hloop
        rw [TransferPlan.arrives_iff (F := F) hplan hcount hrep hszx] at hfinished
        simp only [TransferPlan.arrives_iff (F := F) hplan hcount hrep hszx] at hdecoded
        refine ⟨_, _, rfl, ⟨hpaired'.keys, hpaired'.samples⟩,
          hsequence.trans (Nat.add_le_add_left (hblocks.trans hlength) _), hgap', ?_, ?_⟩
        · rw [hdecoded, hwhole, if_congr hfinished.symm rfl rfl]
          by_cases hdone : plan.representation.length ≤ n.representationOffset
          · rw [if_pos hdone, decide_eq_true hdone]
            rfl
          · rw [if_neg hdone, decide_eq_false hdone]
            rfl
        · intro window' finished hsent
          obtain ⟨rfl, rfl⟩ := NodeReport.sent.inj hsent
          rw [decide_eq_true_iff]
          exact ⟨hfinished, readings.samples, (nodeEncode_eq_ok hencode).2⟩

omit [CDouble D] in
theorem sentWindows_cons (report : NodeReport D) (reports : List (NodeReport D)) :
    sentWindows (report :: reports) = sentWindows [report] ++ sentWindows reports := by
  rw [sentWindows, sentWindows, sentWindows, ← List.filterMap_append, List.singleton_append]

theorem nodeProcess_run (hseals : SealSucceeds P) (hpaired : node.Paired L)
    (clockSecond copies : ℕ) (elapsed : ℕ → ℕ)
    (readings : List (PlatformReadings F D config.windowSize))
    (hwrap : (L.sequence node.security).toNat + maxRepresentation * readings.length < 2 ^ 64) :
    ∃ reports node', nodeProcess clockSecond P (exchange P (repeating copies elapsed)) config node
        readings = some (reports, node') ∧
      (∀ k window finished, (sentWindows reports)[k]? = some (window, finished) →
        (finished = true ↔ node.gap L ≤ k ∧ window.Arrives F P.overhead copies config) ∧
          window.Encoded F config) ∧
      node'.transport.decoded = node.transport.decoded ++
        ((sentWindows reports).filter (·.2)).map (·.1.whole) := by
  induction readings generalizing node with
  | nil =>
    refine ⟨[], node, rfl, ?_, (List.append_nil _).symm⟩
    intro k window finished hnone
    cases hnone
  | cons reading readings ih =>
    rw [List.length_cons, Nat.mul_succ] at hwrap
    have hfirst := (Nat.add_le_add_left (Nat.le_add_left maxRepresentation
      (maxRepresentation * readings.length)) (L.sequence node.security).toNat).trans_lt hwrap
    obtain ⟨report, node₁, hturn, hpaired₁, hsequence, hgap, hdecoded, hreport⟩ :=
      nodeIteration_repeating hseals hpaired hfirst clockSecond copies elapsed reading
    have hnext : (L.sequence node₁.security).toNat + maxRepresentation * readings.length <
        2 ^ 64 := by
      generalize maxRepresentation * readings.length = rest at hwrap ⊢
      omega
    obtain ⟨reports, node', hrest, hfinished, hdecoded'⟩ := ih hpaired₁ hnext
    refine ⟨report :: reports, node', ?_, ?_, ?_⟩
    · rw [nodeProcess, hturn]
      simp only
      rw [hrest]
    · intro k window finished hget
      rw [hgap] at hfinished
      cases report with
      | encodeError e => exact hfinished k window finished hget
      | blockTooSmall other => exact hfinished k window finished hget
      | sent other done =>
        cases k with
        | zero =>
          cases hget
          rw [Nat.le_zero]
          exact hreport window finished rfl
        | succ k =>
          rw [← Nat.sub_le_iff_le_add]
          exact hfinished k window finished hget
    · rw [hdecoded', hdecoded, sentWindows_cons report reports, List.filter_append, List.map_append,
        List.append_assoc]

/-- A node that starts, or starts again, against a server in any state, over a network that
hands every request to the handler with so many copies: the server refuses as many windows
as the highest number it remembers is ahead, and from then on decodes every window that the
decoder accepts and, where requests are repeated, fits one block. -/
theorem nodeProcess_repeating (L : RecordLayer P) (hseals : SealSucceeds P)
    (clockSecond copies : ℕ) (elapsed : ℕ → ℕ) (config : AdaptiveConfig D)
    (hconfig : configValidate config = .ok ()) (hbits : ∀ x : F, ofBits (toBits x) = x)
    (client : σ) (server : ContikiServer σ F D)
    (hkeys : L.sealKey client = L.openKey server.security)
    (hsamples : server.decoded.samples.length = maxWindow)
    (readings : List (PlatformReadings F D config.windowSize))
    (hwrap : (L.sequence client).toNat + maxRepresentation * readings.length < 2 ^ 64) :
    ∃ reports node, nodeProcess clockSecond P (exchange P (repeating copies elapsed)) config
        (nodeProcessInit config client ⟨server, [], []⟩) readings = some (reports, node) ∧
      (∀ k window finished, (sentWindows reports)[k]? = some (window, finished) →
        (finished = true ↔
          L.gap client server.security ≤ k ∧ window.Arrives F P.overhead copies config) ∧
        (GoodScale F window.metadata.coefficientScale →
          decodes F window.representation = true)) ∧
      node.transport.decoded = ((sentWindows reports).filter (·.2)).map (·.1.whole) := by
  have hpaired : (nodeProcessInit config client
      (⟨server, [], []⟩ : Exchange σ F D)).Paired L := ⟨hkeys, hsamples⟩
  obtain ⟨reports, node, hrun, hwindows, hdecoded⟩ :=
    nodeProcess_run hseals hpaired clockSecond copies elapsed readings hwrap
  refine ⟨reports, node, hrun, ?_, hdecoded⟩
  intro k window finished hget
  obtain ⟨hfinished, hencoded⟩ := hwindows k window finished hget
  exact ⟨hfinished, hencoded.decodes hconfig hbits⟩

end Process

section Restarted

/-- A server that has accepted the numbers 0 and 1 before the node has restarted. -/
def advancedServer : ContikiServer TestContext Single ℚ :=
  serverInit { (securityTestPair 7).2 with rxHighest := 1, rxInitialized := true } noMetadata

def restartedRun : Option (List (NodeReport ℚ) × NodeProcess ℚ TestContext
    (Exchange TestContext Single ℚ)) :=
  nodeProcess 128 testProvider (exchange testProvider (repeating 0 fun _ => 10)) twoBlocks
    (nodeProcessInit twoBlocks (securityTestPair 7).1 ⟨advancedServer, [], []⟩)
    [smallReadings, smallReadings, smallReadings]

/-- The first two windows after the restart are refused, and the third one arrives. -/
theorem nodeProcess_repeating_restarted :
    restartedRun.map (fun r => (sentWindows r.1).map (·.2)) = some [false, false, true] ∧
    ∃ reports node, restartedRun = some (reports, node) ∧
      (∀ k window finished, (sentWindows reports)[k]? = some (window, finished) →
        (finished = true ↔ testLayer.gap (securityTestPair 7).1 advancedServer.security ≤ k ∧
          window.Arrives Single testProvider.overhead 0 twoBlocks) ∧
        (GoodScale Single window.metadata.coefficientScale →
          decodes Single window.representation = true)) ∧
      node.transport.decoded = ((sentWindows reports).filter (·.2)).map (·.1.whole) :=
  ⟨by decide +kernel, nodeProcess_repeating testLayer sealSucceeds_testProvider 128 0 (fun _ => 10)
    twoBlocks (by decide +kernel) (fun _ => rfl) (securityTestPair 7).1 advancedServer rfl
    List.length_replicate [smallReadings, smallReadings, smallReadings] (by decide)⟩

end Restarted

end AdaptiveLowpan
