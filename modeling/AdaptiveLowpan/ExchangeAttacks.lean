import AdaptiveLowpan.NodeIntegrity

/-! # The node and the server under attack

An attacker on the network lets any requests reach the server, at any time and in any order:
requests of the node, changed ones and ones of its own. It also answers the node as it likes.
As long as it forges no record, the server decodes nothing but whole windows of the node, and
none of them twice. -/

namespace AdaptiveLowpan
open ByteWords CheckedMemory CFloat

variable {F D σ : Type}

/-- What the attacker does from one request of the node to the next. -/
structure AttackedTurn where
  deliveries : List ServerRequest
  answer : Option UInt8
  elapsed : ℕ

/-- The exchange, and whether a record was forged. -/
structure AttackedExchange (σ F D : Type) where
  exchange : Exchange σ F D
  forged : Bool

def ServerRequest.aadBlock (request : ServerRequest) (header : Block1Header) (szx : UInt8) :
    CoapBlock where
  type := request.type
  code := request.code
  messageId := 0
  token := request.token
  blockNumber := header.number
  more := header.more
  szx := szx
  contentFormat := request.contentFormat.getD 0
  size1 := 0
  payload := []

/-- The associated data of a request with a Block1 option of a known size. -/
def ServerRequest.aad (request : ServerRequest) : Option Bytes := do
  let header ← request.block1
  let szx ← szxFromSize header.size
  return pipelineBuildAad (request.aadBlock header szx)

/-- The associated data under which the handler presents the record of a request to the
session; a request that fails a check before that is not presented. -/
def ContikiServer.presents (server : ContikiServer σ F D) (request : ServerRequest) :
    Option Bytes := do
  let header ← request.block1
  if request.payload = [] ∨ request.token.length = 0 ∨ request.token.length > 8 ∨
      (server.restart header.number request.token).Refuses header.number request.token then none
  else request.aad

/-- A forgery is a request with a record that the handler presents and the session opens,
although the node has made no request with this record and these associated data. -/
def Exchange.forges (P : SecurityProvider σ) (e : Exchange σ F D) (request : ServerRequest) :
    Bool :=
  match e.server.presents request with
  | none => false
  | some aad =>
    (P.openFn e.server.security request.payload aad maxBlockSize).1.toBool &&
      e.requests.all fun earlier =>
        earlier.payload ≠ request.payload ∨ earlier.delivered.aad ≠ some aad

variable [CDouble D] [CFloat F D]

def AttackedExchange.inject (P : SecurityProvider σ) (a : AttackedExchange σ F D)
    (request : ServerRequest) : AttackedExchange σ F D :=
  let forged := a.forged || a.exchange.forges P request
  match telemetryPostHandler P a.exchange.server request with
  | (.error _, server) => ⟨{ a.exchange with server }, forged⟩
  | (.ok response, server) =>
    ⟨{ a.exchange with
        server, decoded := a.exchange.decoded ++ decodedBy response.statusCode server }, forged⟩

/-- The requests of the node, where an attacker has a turn for each of them. -/
def attacked (P : SecurityProvider σ) (attack : ℕ → AttackedTurn) :
    TimedRequest (AttackedExchange σ F D) := fun a request =>
  let turn := attack a.exchange.requests.length
  let a := { a with exchange.requests := a.exchange.requests ++ [request] }
  (turn.answer, turn.elapsed, turn.deliveries.foldl (AttackedExchange.inject P) a)

/-! ## What a request can do -/

section Handler

variable {P : SecurityProvider σ} {server : ContikiServer σ F D} {request : ServerRequest}

/-- Everything that the handler does with a request, and what it presents: it stops at the
first checks or at those of the order and the token, or it goes on with the record. -/
inductive ServerRequest.Checked (P : SecurityProvider σ) (server : ContikiServer σ F D)
    (request : ServerRequest) :
    Option Bytes → Outcome ServerResponse × ContikiServer σ F D → Prop where
  | stopped : Checked P server request none (.ok ⟨.badRequest400, none⟩, server)
  | refused (number : UInt32) (token : Bytes) : Checked P server request none
      (.ok ⟨.requestEntityIncomplete408, none⟩, server.restart number token)
  | presented {header szx} (hszx : szxFromSize header.size = some szx)
      (htoken : request.token.length ≤ 8)
      (haccepts : ¬(server.restart header.number request.token).Refuses header.number
        request.token) :
      Checked P server request (some (pipelineBuildAad (request.aadBlock header szx)))
        (serverAcceptBlock P (server.restart header.number request.token) request header
          (pipelineBuildAad (request.aadBlock header szx)))

omit [CDouble D] [CFloat F D] in
theorem ServerRequest.aad_eq {header : Block1Header} (hheader : request.block1 = some header) :
    request.aad =
      (szxFromSize header.size).map fun szx => pipelineBuildAad (request.aadBlock header szx) := by
  rw [ServerRequest.aad, hheader, Option.map_eq_bind]
  rfl

theorem telemetryPostHandler_checked (P : SecurityProvider σ) (server : ContikiServer σ F D)
    (request : ServerRequest) :
    request.Checked P server (server.presents request) (telemetryPostHandler P server request) := by
  rw [telemetryPostHandler, ContikiServer.presents]
  cases hheader : request.block1 with
  | none => exact .stopped
  | some header =>
    simp only [Option.bind_eq_bind, Option.bind_some]
    rw [ServerRequest.aad_eq hheader]
    by_cases hpayload : request.payload = []
    · rw [if_pos hpayload, if_pos (.inl hpayload)]
      exact .stopped
    rw [if_neg hpayload]
    cases hszx : szxFromSize header.size with
    | none =>
      simp only [Option.map_none, ite_self]
      exact .stopped
    | some szx =>
      simp only [Option.map_some]
      by_cases htoken : request.token.length = 0 ∨ request.token.length > 8
      · rw [if_pos htoken, if_pos (.inr (or_assoc.mp (.inl htoken)))]
        exact .stopped
      rw [if_neg htoken]
      obtain ⟨hempty, hlong⟩ := not_or.mp htoken
      by_cases hrefuses : (server.restart header.number request.token).Refuses header.number
          request.token
      · rw [serverAcceptBlock_refused hrefuses, if_pos (.inr (.inr (.inr hrefuses)))]
        exact .refused _ _
      · rw [if_neg (not_or.mpr ⟨hpayload, not_or.mpr ⟨hempty, not_or.mpr ⟨hlong, hrefuses⟩⟩⟩)]
        exact .presented hszx (not_lt.mp hlong) hrefuses

/-- From the order and token checks on, the handler reads the token and the record alone. -/
theorem serverAcceptBlock_congr {message message' : ServerRequest} {header : Block1Header}
    {aad : Bytes} (htoken : message.token = message'.token)
    (hpayload : message.payload = message'.payload) :
    serverAcceptBlock P server message header aad =
      serverAcceptBlock P server message' header aad := by
  rw [serverAcceptBlock, serverAcceptBlock, htoken, hpayload]

omit [CDouble D] [CFloat F D] in
theorem coapBlockSize_szxFromSize {size : ℕ} {szx : UInt8} (h : szxFromSize size = some szx) :
    coapBlockSize szx = size := by
  have hcandidate := List.find?_some h
  exact of_decide_eq_true hcandidate

end Handler

section Inject

variable {P : SecurityProvider σ} {L : RecordLayer P} {key : L.Key} {plans : List TransferPlan}
  {plan : TransferPlan} {i : ℕ} {e : Exchange σ F D} {a : AttackedExchange σ F D}

omit [CDouble D] [CFloat F D] in
theorem IsBlockRequest.aad_eq {request : ContikiRequest} (hplan : plan.Sendable P.overhead)
    (h : IsBlockRequest L key plan i request) : request.delivered.aad = some (plan.aad i) := by
  obtain ⟨record, rfl, -⟩ := h
  have hszx : szxFromSize plan.blockSize = some plan.szx := by
    rw [hplan.blockSize_eq]
    exact szxFromSize_coapBlockSize hplan.szx_le
  change (szxFromSize plan.blockSize).bind _ = _
  rw [hszx]
  rfl

/-- A record that the session opens, under the associated data of a block that the node has
sent, makes the handler do what the request of the node makes it do. -/
theorem telemetryPostHandler_repeated (server : ContikiServer σ F D) {request : ServerRequest}
    {earlier : ContikiRequest} {header : Block1Header} {szx : UInt8}
    (hplan : plan.Sendable P.overhead) (hi : i < plan.blockCount)
    (hearlier : IsBlockRequest L key plan i earlier) (hpayload : earlier.payload = request.payload)
    (hszx : szxFromSize header.size = some szx) (htoken : request.token.length ≤ 8)
    (haad : pipelineBuildAad (request.aadBlock header szx) = plan.aad i) :
    serverAcceptBlock P (server.restart header.number request.token) request header
        (pipelineBuildAad (request.aadBlock header szx)) =
      telemetryPostHandler P server earlier.delivered := by
  have hfields := (pipelineBuildAad_eq_iff (a := request.aadBlock header szx)
    (b := plan.block 0 i) htoken (by decide : 4 ≤ 8)).mp haad
  obtain ⟨hnumber, htoken', -⟩ := TransferPlan.fields_of_aad htoken haad
  have hheader : header =
      ⟨UInt32.ofNat i, if i + 1 < plan.blockCount then 1 else 0, coapBlockSize plan.szx⟩ := by
    rw [← show szx = plan.szx from hfields.szx, coapBlockSize_szxFromSize hszx]
    exact congrArg₂ (Block1Header.mk · · header.size) hnumber hfields.more
  have htoken' : request.token = writeU32Be plan.windowId := htoken'
  rw [telemetryPostHandler_delivered hplan hi hearlier, haad, hheader, htoken', hpayload]
  exact serverAcceptBlock_congr htoken' rfl

/-- Short of a forgery, a request leaves the session and what is decoded alone, or it does what
a request of the node does. -/
theorem AttackedExchange.inject_cases (h : a.exchange.Invariant L key plans)
    (hplans : SendablePlans P.overhead plans) (request : ServerRequest)
    (hgenuine : a.exchange.forges P request = false) :
    (∃ server, (a.inject P request).exchange = { a.exchange with server } ∧
      server.security = a.exchange.server.security ∧ server.decoded = a.exchange.server.decoded ∧
      server.transfer.Assembled plans) ∨
    ∃ number, (a.inject P request).exchange = (a.exchange.deliver P number).2 := by
  have hchecked := telemetryPostHandler_checked P a.exchange.server request
  rw [Exchange.forges] at hgenuine
  rw [inject]
  generalize telemetryPostHandler P a.exchange.server request = result at hchecked ⊢
  generalize a.exchange.server.presents request = presented at hchecked hgenuine
  have hassembled (number : UInt32) (token : Bytes) :
      (a.exchange.server.restart number token).transfer.Assembled plans := by
    have hsame := a.exchange.server.transfer_restart
      { request.aadBlock ⟨number, 0, 0⟩ 0 with token := token }
    exact hsame ▸ h.assembled.restart _
  cases hchecked with
  | stopped =>
    simp only [decodedBy, reduceCtorEq, if_false, List.append_nil]
    exact Or.inl ⟨_, rfl, rfl, rfl, h.assembled⟩
  | refused number token =>
    simp only [decodedBy, reduceCtorEq, if_false, List.append_nil]
    exact Or.inl ⟨_, rfl, a.exchange.server.restart_security _ _,
      a.exchange.server.restart_decoded _ _, hassembled number token⟩
  | @presented header szx hszx htoken haccepts =>
    rcases hopen : P.openFn a.exchange.server.security request.payload
      (pipelineBuildAad (request.aadBlock header szx)) maxBlockSize with ⟨e | plaintext, security⟩
    · have hsecurity := L.open_error hopen
      rw [← a.exchange.server.restart_security header.number request.token] at hopen
      rw [serverAcceptBlock_unopened haccepts hopen]
      simp only [decodedBy, reduceCtorEq, if_false, List.append_nil]
      exact Or.inl ⟨_, rfl, hsecurity, a.exchange.server.restart_decoded _ _, hassembled _ _⟩
    · right
      -- the record is one that the node has sent under these associated data
      have hsent : ∃ earlier ∈ a.exchange.requests, earlier.payload = request.payload ∧
          earlier.delivered.aad = some (pipelineBuildAad (request.aadBlock header szx)) := by
        simpa [hopen, Except.toBool] using hgenuine
      obtain ⟨earlier, hmem, hpayload, hsame⟩ := hsent
      obtain ⟨plan, hplan, i, hi, hblock⟩ := h.requests earlier hmem
      have hsendable := hplans.sendable plan hplan
      rw [hblock.aad_eq hsendable] at hsame
      have hhandler := telemetryPostHandler_repeated a.exchange.server hsendable hi
        hblock hpayload hszx htoken (Option.some.inj hsame).symm
      obtain ⟨number, hnumber⟩ := List.getElem?_of_mem hmem
      refine ⟨number, ?_⟩
      rw [hhandler, Exchange.deliver, hnumber]
      simp only
      rcases telemetryPostHandler P a.exchange.server earlier.delivered with ⟨e | response, server⟩
      · rfl
      · rfl

/-- Unless a record was forged, the two ends are in step. -/
def AttackedExchange.Sound {P : SecurityProvider σ} (L : RecordLayer P) (key : L.Key)
    (plans : List TransferPlan) (a : AttackedExchange σ F D) : Prop :=
  a.forged = false → a.exchange.Invariant L key plans

theorem AttackedExchange.inject_keeps (P : SecurityProvider σ) (a : AttackedExchange σ F D)
    (request : ServerRequest) :
    (a.inject P request).exchange.requests = a.exchange.requests ∧
      (a.inject P request).forged = (a.forged || a.exchange.forges P request) := by
  rw [inject]
  rcases telemetryPostHandler P a.exchange.server request with ⟨e | response, server⟩
  · exact ⟨rfl, rfl⟩
  · exact ⟨rfl, rfl⟩

theorem AttackedExchange.Sound.inject (h : a.Sound L key plans)
    (hplans : SendablePlans P.overhead plans) (request : ServerRequest) :
    (a.inject P request).Sound L key plans := by
  intro hforged
  rw [(a.inject_keeps P request).2, Bool.or_eq_false_iff] at hforged
  have hinv := h hforged.1
  rcases AttackedExchange.inject_cases hinv hplans request hforged.2 with
    ⟨server, hexchange, hsecurity, hdecoded, hassembled⟩ | ⟨number, hexchange⟩
  · rw [hexchange]
    refine ⟨by rw [hsecurity, hinv.openKey], by rw [hdecoded, hinv.samples], hinv.requests,
      hinv.positions_nodup, hassembled, ?_, hinv.tokens_nodup⟩
    intro d hd
    obtain ⟨plan, hplan, hwhole, hclosed⟩ := hinv.whole d hd
    refine ⟨plan, hplan, hwhole, hclosed.mono (fun _ hreq => hreq) ?_⟩
    intro top htop
    exact ⟨top, by rw [hsecurity]; exact htop, UInt64.le_refl top⟩
  · rw [hexchange]
    exact (hinv.deliver hplans number).1

theorem AttackedExchange.Sound.injectAll (h : a.Sound L key plans)
    (hplans : SendablePlans P.overhead plans) (requests : List ServerRequest) :
    (requests.foldl (AttackedExchange.inject P) a).Sound L key plans ∧
      (requests.foldl (AttackedExchange.inject P) a).exchange.requests = a.exchange.requests ∧
      ((requests.foldl (AttackedExchange.inject P) a).forged = false → a.forged = false) := by
  induction requests generalizing a with
  | nil => exact ⟨h, rfl, id⟩
  | cons request requests ih =>
    obtain ⟨hrequests, hforged⟩ := a.inject_keeps P request
    obtain ⟨hsound, hrequests', hforged'⟩ := ih (h.inject hplans request)
    refine ⟨hsound, hrequests'.trans hrequests, fun hnone => ?_⟩
    have hfirst := hforged' hnone
    rw [hforged, Bool.or_eq_false_iff] at hfirst
    exact hfirst.1

end Inject

/-! ## The node under attack -/

section Attack

variable {P : SecurityProvider σ} {L : RecordLayer P} {key : L.Key} {plans : List TransferPlan}
  {plan : TransferPlan} {i : ℕ} {a a' : AttackedExchange σ F D} {attack : ℕ → AttackedTurn}

theorem AttackedExchange.Sound.request (h : a.Sound L key plans)
    (hplans : SendablePlans P.overhead plans) {request : ContikiRequest} (hplan : plan ∈ plans)
    (hi : i < plan.blockCount) (hrequest : IsBlockRequest L key plan i request)
    (hnew : a.forged = false → ∀ earlier ∈ a.exchange.requests,
      earlier.position ≠ plan.position i) (attack : ℕ → AttackedTurn) :
    (attacked P attack a request).2.2.Sound L key plans ∧
      (attacked P attack a request).2.2.exchange.requests = a.exchange.requests ++ [request] ∧
      ((attacked P attack a request).2.2.forged = false → a.forged = false) := by
  have hstart : AttackedExchange.Sound L key plans
      { a with exchange.requests := a.exchange.requests ++ [request] } :=
    fun hforged => (h hforged).requested hplan hi hrequest (hnew hforged)
  exact hstart.injectAll hplans _

/-- The requests of a window keep the two ends in step. -/
theorem TransferPlan.Requests.attacked {finished : Bool}
    (h : plan.Requests L key (attacked P attack) i a finished a')
    (hplans : SendablePlans P.overhead plans) (hplan : plan ∈ plans)
    (hsound : a.Sound L key plans) (hbefore : a.forged = false → a.exchange.Before plan i) :
    a'.Sound L key plans := by
  have hsendable := hplans.sendable plan hplan
  induction h with
  | finished => exact hsound
  | unsealed hi => exact hsound
  | refused hi hrecord hanswer =>
    have hnew := fun hforged => (hbefore hforged).fresh hsendable hi
    exact (hsound.request hplans hplan hi hrecord hnew attack).1
  | acknowledged hi hrecord hanswer rest ih =>
    have hnew := fun hforged => (hbefore hforged).fresh hsendable hi
    obtain ⟨hsound', hrequests, hforged⟩ := hsound.request hplans hplan hi hrecord hnew attack
    exact ih hsound' fun hnone => (hbefore (hforged hnone)).next hrequests

theorem AttackedExchange.Sound.turn {report : NodeReport D} {plans' : List TransferPlan}
    (h : a.Sound L key plans)
    (hturn : NodeProcess.Turns L key (attacked P attack) plans a report plans' a') :
    a'.Sound L key plans' := by
  cases hturn with
  | skipped hreport => exact h
  | @sent window finished plan _ hplans hfresh hwhole hcount hrequests =>
    exact hrequests.attacked hplans (List.mem_append_right _ (List.mem_singleton_self plan))
      (fun hforged => ((h hforged).plan_next hfresh).1)
      (fun hforged => ((h hforged).plan_next hfresh).2)

def attackedInit (security : σ) (metadata : CodecMetadata D) : AttackedExchange σ F D :=
  ⟨exchangeInit security metadata, false⟩

/-- Whatever an attacker does, the process comes through all its turns. Unless a record was
forged, the server decodes whole windows alone that the process has sent, and none twice. -/
theorem nodeProcess_attacked (L : RecordLayer P) (clockSecond : ℕ) (attack : ℕ → AttackedTurn)
    (config : AdaptiveConfig D) {client server : σ} (hkeys : L.sealKey client = L.openKey server)
    (metadata : CodecMetadata D) (readings : List (PlatformReadings F D config.windowSize))
    (hcount : readings.length ≤ 4294967295) :
    ∃ reports node, nodeProcess clockSecond P (attacked P attack) config
        (nodeProcessInit config client (attackedInit (F := F) server metadata)) readings =
          some (reports, node) ∧
      (node.transport.forged = false →
        (∀ d ∈ node.transport.exchange.decoded, ∃ window finished,
          .sent window finished ∈ reports ∧ d = window.whole) ∧
        (node.transport.exchange.decoded.map (·.1)).Nodup) := by
  have hstart : AttackedExchange.Sound L (L.openKey server) []
      (attackedInit (F := F) server metadata) :=
    fun _ => Exchange.invariant_init L server metadata
  obtain ⟨reports, node, plans, hrun, hnode, hsound⟩ :=
    (NodeProcess.invariant_init config hkeys _).run
      (T := fun plans _ (a : AttackedExchange σ F D) => a.Sound L (L.openKey server) plans)
      (fun _ _ _ _ _ _ hsound hturn => AttackedExchange.Sound.turn hsound hturn)
      hstart clockSecond readings (by simpa using hcount)
  refine ⟨reports, node, hrun, fun hforged => ?_⟩
  have hinv := hsound hforged
  refine ⟨?_, hinv.tokens_nodup⟩
  intro d hd
  obtain ⟨plan, hplan, rfl, -⟩ := hinv.whole d hd
  obtain ⟨window, finished, hmem, hwhole⟩ := hnode.sent plan hplan
  exact ⟨window, finished, hmem, hwhole⟩

end Attack

section Intruder

def intruderRequest : ServerRequest :=
  ⟨0, 2, [1, 2, 3, 4], some ⟨0, 1, 64⟩, none, List.replicate 64 0⟩

def attackedRun (attack : ℕ → AttackedTurn) : Option (List (NodeReport ℚ) ×
    NodeProcess ℚ TestContext (AttackedExchange TestContext Single ℚ)) :=
  nodeProcess 128 testProvider (attacked testProvider attack) twoBlocks
    (nodeProcessInit twoBlocks (securityTestPair 7).1
      (attackedInit (securityTestPair 7).2 noMetadata)) [smallReadings]

/-- What the server would be handed of request `i`, where every request is acknowledged. -/
def overheard (i : ℕ) : ServerRequest :=
  (((attackedRun fun _ => ⟨[], some 95, 10⟩).bind fun r =>
    r.2.transport.exchange.requests[i]?).map ContikiRequest.delivered).getD intruderRequest

/-- The blocks of the window come between a first block of the intruder, a changed second block
and a copy of the second block. -/
def intrusion : ℕ → AttackedTurn
  | 0 => ⟨[intruderRequest, overheard 0], some 95, 10⟩
  | _ =>
    let last := overheard 1
    ⟨[{ last with code := 3 }, last, last], some 68, 10⟩

theorem nodeProcess_attacked_intrusion :
    (attackedRun intrusion).map (fun r =>
      (r.2.transport.forged, r.2.transport.exchange.decoded.length)) = some (false, 1) ∧
    ∃ reports node, attackedRun intrusion = some (reports, node) ∧
      (node.transport.forged = false →
        (∀ d ∈ node.transport.exchange.decoded, ∃ window finished,
          .sent window finished ∈ reports ∧ d = window.whole) ∧
        (node.transport.exchange.decoded.map (·.1)).Nodup) :=
  ⟨by decide +kernel, nodeProcess_attacked testLayer 128 intrusion twoBlocks rfl noMetadata
    [smallReadings] (by decide)⟩

end Intruder

end AdaptiveLowpan
