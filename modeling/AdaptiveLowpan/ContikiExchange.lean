import AdaptiveLowpan.Segmentation
import AdaptiveLowpan.ServerEquivalence

/-! # Requests and answers between the node and the server

The two CoAP stacks and the network between them are one schedule: it says which of the
requests made so far reach the handler while the node waits, in which order and how often,
and which answer to its own request the node gets. Every loss, delay, duplicate and
reordering is such a schedule. -/

namespace AdaptiveLowpan
open ByteWords CheckedMemory CFloat Slices

/-- What Contiki's stack hands to the server of a request of the node. -/
def ContikiRequest.delivered (request : ContikiRequest) : ServerRequest where
  type := request.type
  code := request.code
  token := request.token
  block1 := some ⟨request.block1Number, request.block1More, request.block1Size⟩
  contentFormat := some request.contentFormat
  payload := request.payload

def StatusCode.code : StatusCode → UInt8
  | changed204 => 68
  | continue231 => 95
  | badRequest400 => 128
  | unauthorized401 => 129
  | requestEntityIncomplete408 => 136

structure NetworkTurn where
  /-- The requests that reach the server, by their numbers. -/
  deliveries : List ℕ
  /-- Which of the answers to the new request the node gets, if it gets one. -/
  answer : Option ℕ
  /-- The ticks of the clock until the node goes on. -/
  elapsed : ℕ

/-- The server, the requests that the node has made, and the token and the bytes of every
window that the server has decoded. -/
structure Exchange (σ F D : Type) where
  server : ContikiServer σ F D
  requests : List ContikiRequest
  decoded : List (Bytes × Bytes)

variable {σ F D : Type}

def decodedBy (status : StatusCode) (server : ContikiServer σ F D) : List (Bytes × Bytes) :=
  if status = .changed204 then [(server.activeToken, server.representation)] else []

variable [CDouble D] [CFloat F D]

/-- A request reaches the server, which answers. -/
def Exchange.deliver (P : SecurityProvider σ) (e : Exchange σ F D) (number : ℕ) :
    List (ℕ × StatusCode) × Exchange σ F D :=
  match e.requests[number]? with
  | none => ([], e)
  | some request =>
    match telemetryPostHandler P e.server request.delivered with
    | (.error _, server) => ([], { e with server })
    | (.ok response, server) =>
      ([(number, response.statusCode)],
        { e with server, decoded := e.decoded ++ decodedBy response.statusCode server })

def Exchange.deliverAll (P : SecurityProvider σ) (e : Exchange σ F D) :
    List ℕ → List (ℕ × StatusCode) × Exchange σ F D
  | [] => ([], e)
  | number :: numbers =>
    let (answer, e) := e.deliver P number
    let (answers, e) := e.deliverAll P numbers
    (answer ++ answers, e)

/-- `COAP_BLOCKING_REQUEST`, with the ticks of the clock that it takes. -/
abbrev TimedRequest (τ : Type) := τ → ContikiRequest → Option UInt8 × ℕ × τ

/-- The requests of the node over a network, which has a turn for each of them. -/
def exchange (P : SecurityProvider σ) (network : ℕ → NetworkTurn) :
    TimedRequest (Exchange σ F D) := fun e request =>
  let number := e.requests.length
  let turn := network number
  let (answers, e) :=
    Exchange.deliverAll P { e with requests := e.requests ++ [request] } turn.deliveries
  let own := (answers.filter fun answer => answer.1 = number).map (·.2)
  ((turn.answer.bind fun j => own[j]?).map StatusCode.code, turn.elapsed, e)

/-! ## The server and the blocks of a window -/

def ContikiServer.transfer (server : ContikiServer σ F D) : Receiver σ where
  security := server.security
  representation := server.representation
  nextBlock := server.nextBlock
  token := server.activeToken
  active := server.transferActive

/-- A request with block `i` of a plan, sealed under `key`. -/
def IsBlockRequest {P : SecurityProvider σ} (L : RecordLayer P) (key : L.Key)
    (plan : TransferPlan) (i : ℕ) (request : ContikiRequest) : Prop :=
  ∃ record, request = plan.nodeRequest (UInt32.ofNat i)
      (if i + 1 < plan.blockCount then 1 else 0) record ∧
    L.IsRecord key (plan.slice i) (plan.aad i) record ∧
    record.length = (plan.slice i).length + P.overhead

structure TransferPlan.Sendable (overhead : ℕ) (plan : TransferPlan) : Prop
    extends plan.Bounded overhead where
  szx_le : plan.szx ≤ 6

section Handler

variable {P : SecurityProvider σ} {L : RecordLayer P} {plan : TransferPlan} {i : ℕ}
  {server : ContikiServer σ F D} {request : ContikiRequest} {key : L.Key}

omit [CDouble D] [CFloat F D] in
theorem ContikiServer.transfer_restart (server : ContikiServer σ F D) (block : CoapBlock) :
    (server.restart block.blockNumber block.token).transfer = server.transfer.restart block := by
  by_cases hzero : block.blockNumber = 0
  · rw [ContikiServer.restart, if_pos hzero, Receiver.restart_of_zero hzero]
    rfl
  · rw [ContikiServer.restart, if_neg hzero, Receiver.restart_of_ne hzero]

omit [CDouble D] [CFloat F D] in
@[simp] theorem ContikiServer.restart_decoded (server : ContikiServer σ F D) (number : UInt32)
    (token : Bytes) : (server.restart number token).decoded = server.decoded := by
  by_cases hzero : number = 0
  · rw [restart, if_pos hzero]
  · rw [restart, if_neg hzero]

omit [CDouble D] [CFloat F D] in
@[simp] theorem ContikiServer.restart_security (server : ContikiServer σ F D) (number : UInt32)
    (token : Bytes) : (server.restart number token).security = server.security := by
  by_cases hzero : number = 0
  · rw [restart, if_pos hzero]
  · rw [restart, if_neg hzero]

def ContikiServer.Refuses (server : ContikiServer σ F D) (number : UInt32) (token : Bytes) : Prop :=
  !server.transferActive ∨ number ≠ server.nextBlock ∨
    token.length ≠ server.activeToken.length ∨ token ≠ server.activeToken

instance (server : ContikiServer σ F D) (number : UInt32) (token : Bytes) :
    Decidable (server.Refuses number token) :=
  inferInstanceAs (Decidable (_ ∨ _))

omit [CDouble D] [CFloat F D] in
theorem ContikiServer.refuses_iff (server : ContikiServer σ F D) (block : CoapBlock) :
    server.Refuses block.blockNumber block.token ↔ server.transfer.expects block = false := by
  rw [Refuses, Receiver.expects, decide_eq_false_iff_not, transfer]
  cases server.transferActive with
  | false => simp
  | true => simp only [Bool.not_true, Bool.false_eq_true, false_or, true_and, not_and_or, ne_eq]

def ContikiServer.store (server : ContikiServer σ F D) (security : σ) (plaintext : Bytes) :
    ContikiServer σ F D :=
  { server with
    security
    representation := server.representation ++ plaintext
    nextBlock := server.nextBlock + 1 }

section Accept

variable {message : ServerRequest} {header : Block1Header} {aad plaintext : Bytes} {security : σ}

theorem serverAcceptBlock_refused (h : server.Refuses header.number message.token) :
    serverAcceptBlock P server message header aad =
      (.ok ⟨.requestEntityIncomplete408, none⟩, server) := if_pos h

theorem serverAcceptBlock_unopened {e : Stop Failure}
    (h : ¬server.Refuses header.number message.token)
    (hopen : P.openFn server.security message.payload aad maxBlockSize = (.error e, security)) :
    serverAcceptBlock P server message header aad =
      (.ok ⟨.unauthorized401, none⟩, { server with security }) := by
  rw [serverAcceptBlock]
  refine (if_neg h).trans ?_
  rw [securityOpen, hopen]

theorem serverAcceptBlock_opened (h : ¬server.Refuses header.number message.token)
    (hopen : P.openFn server.security message.payload aad maxBlockSize = (.ok plaintext, security))
    (hfits : server.representation.length + plaintext.length ≤ maxRepresentation) :
    serverAcceptBlock P server message header aad =
      if header.more ≠ 0 then (.ok ⟨.continue231, some header⟩, server.store security plaintext)
      else
        match codecDecode (server.representation ++ plaintext) server.decoded with
        | (.error _, decoded) => (.ok ⟨.badRequest400, some header⟩,
            { server.store security plaintext with decoded })
        | (.ok (), decoded) => (.ok ⟨.changed204, some header⟩,
            { server.store security plaintext with decoded, transferActive := false }) := by
  have hmax : maxRepresentation = 1088 := rfl
  have hsmall : ¬plaintext.length > sizeSub maxRepresentation server.representation.length := by
    rw [sizeSub]
    omega
  rw [serverAcceptBlock]
  refine (if_neg h).trans ?_
  rw [securityOpen, hopen]
  simp only
  rw [if_neg hsmall, emit_of_le hfits]
  rfl

end Accept

/-- A request of the node gets to the order and token checks. -/
theorem telemetryPostHandler_delivered (hplan : plan.Sendable P.overhead)
    (hi : i < plan.blockCount) (hrequest : IsBlockRequest L key plan i request) :
    telemetryPostHandler P server request.delivered =
      serverAcceptBlock P (server.restart (UInt32.ofNat i) (writeU32Be plan.windowId))
        (handOver (plan.sentBlock 0 i request.payload))
        ⟨UInt32.ofNat i, if i + 1 < plan.blockCount then 1 else 0, coapBlockSize plan.szx⟩
        (plan.aad i) := by
  obtain ⟨record, rfl, -, hlength⟩ := hrequest
  have hpos := hplan.length_slice_pos hi
  have hpayload : (plan.sentBlock 0 i record).payload ≠ [] := by
    change record ≠ []
    apply List.ne_nil_of_length_pos
    omega
  have hdelivered : (plan.nodeRequest (UInt32.ofNat i) (if i + 1 < plan.blockCount then 1 else 0)
      record).delivered = handOver (plan.sentBlock 0 i record) := by
    rw [ContikiRequest.delivered, handOver, TransferPlan.nodeRequest, hplan.blockSize_eq]
    rfl
  rw [hdelivered]
  exact telemetryPostHandler_handOver P server hplan.szx_le
    (List.ne_nil_of_length_pos (by simp [TransferPlan.sentBlock, TransferPlan.block]))
    (by simp [TransferPlan.sentBlock, TransferPlan.block]) hpayload

def decodes (F : Type) [CFloat F D] (representation : Bytes) : Bool :=
  (codecDecode representation
    (⟨List.replicate maxWindow zeroFloat, 0, none⟩ : DecodeTarget F D)).1.toBool

theorem decodes_eq {representation : Bytes} {out : DecodeTarget F D}
    (h : out.samples.length = maxWindow) :
    decodes F representation = (codecDecode representation out).1.toBool := by
  have hlength : (List.replicate maxWindow (zeroFloat : F)).length = out.samples.length := by
    rw [h, List.length_replicate]
  exact congrArg Except.toBool (codecDecode_outcome representation hlength).1

/-- The status of the answer to block `i`, when its record is opened. -/
def TransferPlan.takenStatus (F : Type) [CFloat F D] (plan : TransferPlan) (i : ℕ) : StatusCode :=
  if i + 1 < plan.blockCount then .continue231
  else if decodes F (plan.sentUpTo (i + 1)) then .changed204 else .badRequest400

/-- What the server keeps when it has taken the blocks of a window below `i`. -/
structure ContikiServer.Keeps (server : ContikiServer σ F D) (plan : TransferPlan) (i : ℕ) :
    Prop where
  nextBlock : server.nextBlock = UInt32.ofNat i
  token : server.activeToken = writeU32Be plan.windowId
  representation : server.representation = plan.sentUpTo i

/-- The server has taken block `i` under the number `sequence`. -/
structure ContikiServer.Takes (L : RecordLayer P) (server : ContikiServer σ F D)
    (plan : TransferPlan) (i : ℕ) (sequence : UInt64) (server' : ContikiServer σ F D) : Prop where
  openKey : L.openKey server'.security = L.openKey server.security
  highest : L.highest server'.security = some sequence
  keeps : server'.Keeps plan (i + 1)
  active : i + 1 < plan.blockCount → server'.transferActive = true
  samples : server'.decoded.samples.length = server.decoded.samples.length

omit [CDouble D] [CFloat F D] in
theorem ContikiServer.holds_restart (hplan : plan.Bounded P.overhead) (hi : i < plan.blockCount)
    (hholds : i = 0 ∨ server.transfer.Holds plan i) :
    (server.restart (UInt32.ofNat i) (writeU32Be plan.windowId)).transfer.Holds plan i := by
  have hrestart := server.transfer_restart (plan.sentBlock 0 i [])
  have hstart := Receiver.holds_restart hplan hi hholds 0 []
  rw [← hrestart] at hstart
  exact hstart

omit [CDouble D] [CFloat F D] in
theorem ContikiServer.not_refuses (hplan : plan.Bounded P.overhead) (hi : i < plan.blockCount)
    (hholds : i = 0 ∨ server.transfer.Holds plan i) :
    ¬(server.restart (UInt32.ofNat i) (writeU32Be plan.windowId)).Refuses (UInt32.ofNat i)
      (writeU32Be plan.windowId) := by
  intro hrefuses
  have hexpects := (ContikiServer.holds_restart hplan hi hholds).expects 0 []
  rw [(ContikiServer.refuses_iff _ (plan.sentBlock 0 i [])).mp hrefuses] at hexpects
  exact Bool.noConfusion hexpects

/-- The next block, fresh: the server opens it and answers for what it then holds. -/
theorem telemetryPostHandler_next (hplan : plan.Sendable P.overhead) (hi : i < plan.blockCount)
    (hrequest : IsBlockRequest L (L.openKey server.security) plan i request)
    (hfresh : ∀ h ∈ L.highest server.security, h < recordSequence request.payload)
    (hholds : i = 0 ∨ server.transfer.Holds plan i)
    (hsamples : server.decoded.samples.length = maxWindow) :
    ∃ response server', telemetryPostHandler P server request.delivered =
        (.ok response, server') ∧
      response.statusCode = plan.takenStatus F i ∧
      server.Takes L plan i (recordSequence request.payload) server' := by
  have hroom := hplan.length_slice_le i
  have hblock := hplan.blockSize_le
  have hcapacity : (plan.slice i).length ≤ maxBlockSize := by omega
  have hheld := ContikiServer.holds_restart hplan.toBounded hi hholds
  have haccepts := ContikiServer.not_refuses hplan.toBounded hi hholds
  rw [telemetryPostHandler_delivered hplan hi hrequest]
  obtain ⟨record, rfl, hrecord, -⟩ := hrequest
  obtain ⟨security, hopen, hhighest⟩ := L.open_fresh hrecord hcapacity hfresh
  obtain ⟨-, hkey, -⟩ := L.open_keeps hopen
  rw [← server.restart_security (UInt32.ofNat i) (writeU32Be plan.windowId)] at hopen
  -- what is held and the slice are a prefix of the representation
  have hstored : (server.restart (UInt32.ofNat i) (writeU32Be plan.windowId)).representation ++
      plan.slice i = plan.sentUpTo (i + 1) := by
    rw [← plan.sentUpTo_succ]
    exact congrArg (· ++ plan.slice i) hheld.representation
  have hfits : (server.restart (UInt32.ofNat i) (writeU32Be plan.windowId)).representation.length +
      (plan.slice i).length ≤ maxRepresentation := by
    rw [← List.length_append, hstored]
    exact (plan.length_sentUpTo_le (i + 1)).trans hplan.length_le
  have hnext : (server.restart (UInt32.ofNat i) (writeU32Be plan.windowId)).nextBlock + 1 =
      UInt32.ofNat (i + 1) := by
    rw [UInt32.ofNat_add]
    exact congrArg (· + 1) hheld.nextBlock
  rw [serverAcceptBlock_opened haccepts hopen hfits, TransferPlan.takenStatus]
  by_cases hmore : i + 1 < plan.blockCount
  · have hflag : (if i + 1 < plan.blockCount then (1 : UInt8) else 0) ≠ 0 := by
      rw [if_pos hmore]
      decide
    rw [if_pos hflag]
    refine ⟨_, _, rfl, (if_pos hmore).symm, hkey, hhighest, ⟨hnext, hheld.token, hstored⟩,
      fun _ => hheld.active, ?_⟩
    exact congrArg (·.samples.length) (server.restart_decoded _ _)
  · have hflag : ¬(if i + 1 < plan.blockCount then (1 : UInt8) else 0) ≠ 0 := by
      rw [if_neg hmore]
      decide
    rw [if_neg hflag, server.restart_decoded, hstored, decodes_eq hsamples]
    have hkept := (codecDecode_outcome (plan.sentUpTo (i + 1))
      (rfl : server.decoded.samples.length = server.decoded.samples.length)).2
    generalize codecDecode (plan.sentUpTo (i + 1)) server.decoded = result at hkept ⊢
    rcases result with ⟨e | _, decoded⟩
    · exact ⟨_, _, rfl, (if_neg hmore).symm, hkey, hhighest, ⟨hnext, hheld.token, hstored⟩,
        fun h => absurd h hmore, hkept⟩
    · exact ⟨_, _, rfl, (if_neg hmore).symm, hkey, hhighest, ⟨hnext, hheld.token, hstored⟩,
        fun h => absurd h hmore, hkept⟩

/-- The next block, stale: block 0 resets the transfer all the same. -/
theorem telemetryPostHandler_stale (hplan : plan.Sendable P.overhead) (hi : i < plan.blockCount)
    (hrequest : IsBlockRequest L (L.openKey server.security) plan i request) {h : UInt64}
    (hh : h ∈ L.highest server.security) (hstale : recordSequence request.payload ≤ h)
    (hholds : i = 0 ∨ server.transfer.Holds plan i) :
    telemetryPostHandler P server request.delivered = (.ok ⟨.unauthorized401, none⟩,
      server.restart (UInt32.ofNat i) (writeU32Be plan.windowId)) := by
  have hroom := hplan.length_slice_le i
  have hblock := hplan.blockSize_le
  have hcapacity : (plan.slice i).length ≤ maxBlockSize := by omega
  have haccepts := ContikiServer.not_refuses hplan.toBounded hi hholds
  rw [telemetryPostHandler_delivered hplan hi hrequest]
  obtain ⟨record, rfl, hrecord, -⟩ := hrequest
  have hopen := L.open_replay hrecord hcapacity hh hstale
  rw [← server.restart_security (UInt32.ofNat i) (writeU32Be plan.windowId)] at hopen
  exact serverAcceptBlock_unopened haccepts hopen

theorem telemetryPostHandler_unexpected (hplan : plan.Sendable P.overhead)
    (hi : i < plan.blockCount) (hrequest : IsBlockRequest L key plan i request) (hpos : i ≠ 0)
    (hwait : server.transfer.expects (plan.sentBlock 0 i []) = false) :
    telemetryPostHandler P server request.delivered =
      (.ok ⟨.requestEntityIncomplete408, none⟩, server) := by
  have hnumber : UInt32.ofNat i ≠ 0 := by
    intro hzero
    exact hpos ((hplan.ofNat_inj hi.le (Nat.zero_le _)).mp hzero)
  rw [telemetryPostHandler_delivered hplan hi hrequest, ContikiServer.restart, if_neg hnumber]
  exact serverAcceptBlock_refused ((server.refuses_iff (plan.sentBlock 0 i [])).mpr hwait)

end Handler

end AdaptiveLowpan
