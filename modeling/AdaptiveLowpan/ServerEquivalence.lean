import AdaptiveLowpan.AadBinding
import AdaptiveLowpan.CodecBuffers
import AdaptiveLowpan.ContikiServer
import AdaptiveLowpan.EndToEnd

/-! # The server and the receiver are the same machine

Both go through the requests of any sequence with equal transfers, and what they answer
has the same cause. -/

namespace AdaptiveLowpan
open ByteWords CheckedMemory CFloat

variable {σ F D : Type}

/-- What Contiki's stack hands over of a parsed packet. -/
def handOver (block : CoapBlock) : ServerRequest where
  type := block.type
  code := block.code
  token := block.token
  block1 := some ⟨block.blockNumber, block.more, coapBlockSize block.szx⟩
  contentFormat := some block.contentFormat
  payload := block.payload

/-- A request that both sides take up, with the sample buffer that the caller of the
receiver brings along. -/
structure TelemetryRequest (F D : Type) where
  packet : Bytes
  block : CoapBlock
  out : DecodeTarget F D
  parsed : coapParseBlock1 packet = .ok block
  szx_le : block.szx ≤ 6
  token_ne : block.token ≠ []
  payload_ne : block.payload ≠ []
  sampleCapacity : out.samples.length = maxWindow

/-- Equal transfers on both sides, in buffers of their sizes. -/
structure SameTransfer (receiver : Receiver σ) (server : ContikiServer σ F D) : Prop where
  security : server.security = receiver.security
  representation : server.representation = receiver.representation
  nextBlock : server.nextBlock = receiver.nextBlock
  token : server.activeToken = receiver.token
  active : server.transferActive = receiver.active
  room : receiver.representation.length ≤ maxRepresentation
  samples : server.decoded.samples.length = maxWindow

section Transfer

variable {receiver : Receiver σ} {server : ContikiServer σ F D}

theorem SameTransfer.restart (h : SameTransfer receiver server) (block : CoapBlock) :
    SameTransfer (receiver.restart block) (server.restart block.blockNumber block.token) := by
  by_cases hzero : block.blockNumber = 0
  · rw [Receiver.restart, ContikiServer.restart, if_pos hzero, if_pos hzero]
    exact ⟨h.security, rfl, rfl, rfl, rfl, Nat.zero_le _, h.samples⟩
  · rw [Receiver.restart, ContikiServer.restart, if_neg hzero, if_neg hzero]
    exact h

theorem SameTransfer.expects_iff (h : SameTransfer receiver server) (block : CoapBlock) :
    (!server.transferActive ∨ block.blockNumber ≠ server.nextBlock ∨
      block.token.length ≠ server.activeToken.length ∨ block.token ≠ server.activeToken) ↔
      receiver.expects block = false := by
  rw [h.active, h.nextBlock, h.token, Receiver.expects, decide_eq_false_iff_not]
  cases receiver.active with
  | false => simp
  | true =>
    simp only [Bool.not_true, Bool.false_eq_true, false_or, true_and, not_and_or, ne_eq]

end Transfer

variable [CDouble D] [CFloat F D]

/-- The results of the receiver and the status codes of the server, cause by cause. -/
inductive AnswersAlike (P : SecurityProvider σ) (receiver : Receiver σ) (block : CoapBlock)
    (out : DecodeTarget F D) : Outcome Accepted → StatusCode → Prop where
  | unexpected (hexpects : (receiver.restart block).expects block = false) :
      AnswersAlike P receiver block out (fail .format) .requestEntityIncomplete408
  | unopened {e security} (hexpects : (receiver.restart block).expects block = true)
      (hopen : securityOpen P receiver.security block.payloadPointer (pipelineBuildAad block)
        maxBlockSize = (.error e, security)) :
      AnswersAlike P receiver block out (.error e) .unauthorized401
  | overflow {plaintext security} (hexpects : (receiver.restart block).expects block = true)
      (hopen : securityOpen P receiver.security block.payloadPointer (pipelineBuildAad block)
        maxBlockSize = (.ok plaintext, security))
      (hfull : maxRepresentation < (receiver.restart block).representation.length +
        plaintext.length) :
      AnswersAlike P receiver block out (fail .capacity) .unauthorized401
  | stored {plaintext security} (hexpects : (receiver.restart block).expects block = true)
      (hopen : securityOpen P receiver.security block.payloadPointer (pipelineBuildAad block)
        maxBlockSize = (.ok plaintext, security)) (hmore : block.more ≠ 0) :
      AnswersAlike P receiver block out (.ok .ok) .continue231
  | undecoded {plaintext security e out'}
      (hexpects : (receiver.restart block).expects block = true)
      (hopen : securityOpen P receiver.security block.payloadPointer (pipelineBuildAad block)
        maxBlockSize = (.ok plaintext, security)) (hlast : block.more = 0)
      (hdecode : codecDecode ((receiver.restart block).representation ++ plaintext) out =
        (.error e, out')) :
      AnswersAlike P receiver block out (.error e) .badRequest400
  | complete {plaintext security out'} (hexpects : (receiver.restart block).expects block = true)
      (hopen : securityOpen P receiver.security block.payloadPointer (pipelineBuildAad block)
        maxBlockSize = (.ok plaintext, security)) (hlast : block.more = 0)
      (hdecode : codecDecode ((receiver.restart block).representation ++ plaintext) out =
        (.ok (), out')) :
      AnswersAlike P receiver block out (.ok .complete) .changed204

/-! ## One request -/

theorem szxFromSize_coapBlockSize {szx : UInt8} (h : szx ≤ 6) :
    szxFromSize (coapBlockSize szx) = some szx := by
  have hall : ∀ n < 7, szxFromSize (coapBlockSize (UInt8.ofNat n)) = some (UInt8.ofNat n) := by
    decide
  have hlt : szx.toNat < 7 := by
    have hle := UInt8.le_iff_toNat_le.mp h
    exact Nat.lt_succ_of_le hle
  have hszx := hall szx.toNat hlt
  rwa [UInt8.ofNat_toNat] at hszx

/-- A request that is handed over passes the first checks. -/
theorem telemetryPostHandler_handOver (P : SecurityProvider σ) (server : ContikiServer σ F D)
    {block : CoapBlock} (hszx : block.szx ≤ 6) (htoken : block.token ≠ [])
    (hlength : block.token.length ≤ 8) (hpayload : block.payload ≠ []) :
    telemetryPostHandler P server (handOver block) =
      serverAcceptBlock P (server.restart block.blockNumber block.token) (handOver block)
        ⟨block.blockNumber, block.more, coapBlockSize block.szx⟩ (pipelineBuildAad block) := by
  have hempty : ¬((handOver block).token.length = 0 ∨ (handOver block).token.length > 8) := by
    rintro (hzero | hlong)
    · exact htoken (List.eq_nil_of_length_eq_zero hzero)
    · exact absurd hlength (Nat.not_le.mpr hlong)
  have hnonempty : ¬(handOver block).payload = [] := hpayload
  rw [telemetryPostHandler]
  refine (if_neg hnonempty).trans ?_
  simp only [handOver, szxFromSize_coapBlockSize hszx]
  exact if_neg hempty

variable {P : SecurityProvider σ} {receiver : Receiver σ} {server : ContikiServer σ F D}

theorem SameTransfer.accept {block : CoapBlock} {out : DecodeTarget F D}
    (h : SameTransfer (receiver.restart block) server) (hpayload : block.payload ≠ [])
    (hcapacity : out.samples.length = maxWindow) (header : Block1Header)
    (hnumber : header.number = block.blockNumber) (hmore : header.more = block.more) :
    ∃ response server',
      serverAcceptBlock P server (handOver block) header (pipelineBuildAad block) =
        (.ok response, server') ∧
      AnswersAlike P receiver block out (receiverAcceptBlock P receiver block out).1
        response.statusCode ∧
      SameTransfer (receiverAcceptBlock P receiver block out).2.1 server' := by
  have hsecurity : (receiver.restart block).security = receiver.security := by
    rw [Receiver.restart]
    split
    · rfl
    · rfl
  have hpointer : some block.payload = block.payloadPointer := (if_neg hpayload).symm
  have hexpects := h.expects_iff block
  -- the server has the fields of the restarted receiver
  obtain ⟨security, representation, nextBlock, activeToken, transferActive, decoded⟩ := server
  obtain ⟨rfl, rfl, rfl, rfl, rfl, hroom, hsamples⟩ := h
  rw [serverAcceptBlock, receiverAcceptBlock]
  simp only [handOver, hpointer, hnumber, hmore] at hexpects ⊢
  cases hgoes : (receiver.restart block).expects block with
  | false =>
    refine ⟨_, _, if_pos (hexpects.mpr hgoes), ?_, ?_⟩
    · exact .unexpected hgoes
    · exact ⟨rfl, rfl, rfl, rfl, rfl, hroom, hsamples⟩
  | true =>
    have hnot := mt hexpects.mp (by rw [hgoes]; exact Bool.noConfusion)
    rw [if_neg hnot]
    simp only [Bool.not_true, Bool.false_eq_true, if_false, hsecurity]
    rcases hopen : securityOpen P receiver.security block.payloadPointer (pipelineBuildAad block)
      maxBlockSize with ⟨e | plaintext, security⟩
    · refine ⟨_, _, rfl, .unopened hgoes hopen, ?_⟩
      exact ⟨rfl, rfl, rfl, rfl, rfl, hroom, hsamples⟩
    simp only
    have hmax : maxRepresentation = 1088 := rfl
    have hsize : sizeSub maxRepresentation (receiver.restart block).representation.length =
        maxRepresentation - (receiver.restart block).representation.length := by
      rw [sizeSub]
      omega
    by_cases hfull : plaintext.length >
        sizeSub maxRepresentation (receiver.restart block).representation.length
    · rw [if_pos hfull, if_pos hfull]
      refine ⟨_, _, rfl, .overflow hgoes hopen ?_, ?_⟩
      · omega
      · exact ⟨rfl, rfl, rfl, rfl, rfl, hroom, hsamples⟩
    have hfits : (receiver.restart block).representation.length + plaintext.length ≤
        maxRepresentation := by omega
    rw [if_neg hfull, if_neg hfull, emit_of_le hfits]
    simp only
    have hstored : ((receiver.restart block).representation ++ plaintext).length ≤
        maxRepresentation := by
      rw [List.length_append]
      exact hfits
    by_cases hlast : block.more = 0
    · have hnotmore : ¬block.more ≠ 0 := not_not.mpr hlast
      rw [if_neg hnotmore, if_neg hnotmore]
      -- both sides decode, into different buffers of the same size
      obtain ⟨hend, hkept⟩ := codecDecode_outcome
        ((receiver.restart block).representation ++ plaintext) (hsamples.trans hcapacity.symm)
      rcases hdecode : codecDecode ((receiver.restart block).representation ++ plaintext) out with
        ⟨e | _, out'⟩
      · rw [hdecode] at hend
        rcases hserver : codecDecode ((receiver.restart block).representation ++ plaintext)
          decoded with ⟨e' | _, decoded'⟩
        · rw [hserver] at hkept
          refine ⟨_, _, rfl, .undecoded hgoes hopen hlast hdecode, ?_⟩
          exact ⟨rfl, rfl, rfl, rfl, rfl, hstored, hkept.trans hsamples⟩
        · rw [hserver] at hend
          cases hend
      · rw [hdecode] at hend
        rcases hserver : codecDecode ((receiver.restart block).representation ++ plaintext)
          decoded with ⟨e' | _, decoded'⟩
        · rw [hserver] at hend
          cases hend
        · rw [hserver] at hkept
          refine ⟨_, _, rfl, .complete hgoes hopen hlast hdecode, ?_⟩
          exact ⟨rfl, rfl, rfl, rfl, rfl, hstored, hkept.trans hsamples⟩
    · rw [if_pos hlast, if_pos hlast]
      refine ⟨_, _, rfl, .stored hgoes hopen hlast, ?_⟩
      exact ⟨rfl, rfl, rfl, rfl, rfl, hstored, hsamples⟩

/-- Both sides answer a request alike and go on with equal transfers. -/
theorem SameTransfer.step (h : SameTransfer receiver server) (request : TelemetryRequest F D) :
    ∃ response server',
      telemetryPostHandler P server (handOver request.block) = (.ok response, server') ∧
      AnswersAlike P receiver request.block request.out
        (receiverAccept P receiver request.packet request.out).1 response.statusCode ∧
      SameTransfer (receiverAccept P receiver request.packet request.out).2.1 server' := by
  have haccept : receiverAccept P receiver request.packet request.out =
      receiverAcceptBlock P receiver request.block request.out := by
    rw [receiverAccept, request.parsed]
  rw [telemetryPostHandler_handOver P server request.szx_le request.token_ne
    (token_length_le_of_parse request.parsed) request.payload_ne, haccept]
  exact (h.restart request.block).accept request.payload_ne request.sampleCapacity _ rfl rfl

/-! ## Sequences of requests -/

def receiverAfter (P : SecurityProvider σ) (receiver : Receiver σ)
    (requests : List (TelemetryRequest F D)) : Receiver σ :=
  requests.foldl (fun receiver request =>
    (receiverAccept P receiver request.packet request.out).2.1) receiver

def serverAfter (P : SecurityProvider σ) (server : ContikiServer σ F D)
    (requests : List (TelemetryRequest F D)) : ContikiServer σ F D :=
  requests.foldl (fun server request =>
    (telemetryPostHandler P server (handOver request.block)).2) server

theorem SameTransfer.after (h : SameTransfer receiver server)
    (requests : List (TelemetryRequest F D)) :
    SameTransfer (receiverAfter P receiver requests) (serverAfter P server requests) := by
  induction requests generalizing receiver server with
  | nil => exact h
  | cons request requests ih =>
    obtain ⟨response, server', hhandler, -, hnext⟩ := h.step (P := P) request
    rw [receiverAfter, serverAfter, List.foldl_cons, List.foldl_cons, hhandler]
    exact ih hnext

theorem sameTransfer_init (security : σ) (metadata : CodecMetadata D) :
    SameTransfer (receiverInit security) (serverInit security metadata : ContikiServer σ F D) :=
  ⟨rfl, rfl, rfl, rfl, rfl, Nat.zero_le _, List.length_replicate⟩

/-- After every sequence of requests, the server and the receiver have equal transfers and
sessions, and they answer the next request alike. -/
theorem telemetryPostHandler_receiverAccept (P : SecurityProvider σ) (security : σ)
    (metadata : CodecMetadata D) (requests : List (TelemetryRequest F D)) :
    SameTransfer (receiverAfter P (receiverInit security) requests)
        (serverAfter P (serverInit security metadata) requests) ∧
      ∀ request : TelemetryRequest F D, ∃ response server',
        telemetryPostHandler P (serverAfter P (serverInit security metadata) requests)
          (handOver request.block) = (.ok response, server') ∧
        AnswersAlike P (receiverAfter P (receiverInit security) requests) request.block
          request.out (receiverAccept P (receiverAfter P (receiverInit security) requests)
            request.packet request.out).1 response.statusCode := by
  have hsame := (sameTransfer_init (F := F) security metadata).after (P := P) requests
  refine ⟨hsame, ?_⟩
  intro request
  obtain ⟨response, server', hhandler, hanswers, -⟩ := hsame.step (P := P) request
  exact ⟨response, server', hhandler, hanswers⟩

section Sample

def noMetadata : CodecMetadata ℚ := ⟨0, .good, 0, 0, 0, 0, 0, 0⟩

def recordedBlock (packet : Bytes) : CoapBlock :=
  match coapParseBlock1 packet with
  | .ok block => block
  | .error _ => ⟨0, 0, 0, [], 0, 0, 0, 0, 0, []⟩

/-- Both sides take up the packet. -/
def Recorded (packet : Bytes) : Prop :=
  coapParseBlock1 packet = .ok (recordedBlock packet) ∧ (recordedBlock packet).szx ≤ 6 ∧
    (recordedBlock packet).token ≠ [] ∧ (recordedBlock packet).payload ≠ []

instance (packet : Bytes) : Decidable (Recorded packet) := inferInstanceAs (Decidable (_ ∧ _))

def recordedRequest {packet : Bytes} (h : Recorded packet) : TelemetryRequest Single ℚ :=
  ⟨packet, recordedBlock packet, ⟨List.replicate maxWindow zeroFloat, 0, none⟩, h.1, h.2.1, h.2.2.1,
    h.2.2.2, List.length_replicate⟩

theorem recorded_packets : Recorded firstPacket ∧ Recorded secondPacket := by
  decide +kernel

/-- Both sides have taken up some requests and answer the next one alike, with this status. -/
def AnswersNext (requests : List (TelemetryRequest Single ℚ))
    (request : TelemetryRequest Single ℚ) (status : StatusCode) : Prop :=
  ∃ response server',
    telemetryPostHandler testProvider (serverAfter testProvider
      (serverInit (securityTestPair 7).2 noMetadata) requests) (handOver request.block) =
        (.ok response, server') ∧
      response.statusCode = status ∧
      AnswersAlike testProvider (receiverAfter testProvider
        (receiverInit (securityTestPair 7).2) requests) request.block request.out
        (receiverAccept testProvider (receiverAfter testProvider
          (receiverInit (securityTestPair 7).2) requests) request.packet request.out).1
        response.statusCode

def answerOf (requests : List (TelemetryRequest Single ℚ))
    (request : TelemetryRequest Single ℚ) : Option StatusCode :=
  (telemetryPostHandler testProvider (serverAfter testProvider
    (serverInit (securityTestPair 7).2 noMetadata) requests)
      (handOver request.block)).1.toOption.map (·.statusCode)

/-- The two packets of the recorded call, and a copy of the second one. -/
theorem telemetryPostHandler_receiverAccept_copy :
    let first := recordedRequest recorded_packets.1
    let second := recordedRequest recorded_packets.2
    AnswersNext [] first .continue231 ∧ AnswersNext [first] second .changed204 ∧
      AnswersNext [first, second] second .requestEntityIncomplete408 := by
  intro first second
  have hnext {requests : List (TelemetryRequest Single ℚ)} {request : TelemetryRequest Single ℚ}
      {status : StatusCode} (hstatus : answerOf requests request = some status) :
      AnswersNext requests request status := by
    obtain ⟨response, server', hhandler, hanswers⟩ := (telemetryPostHandler_receiverAccept
      testProvider (securityTestPair 7).2 noMetadata requests).2 request
    rw [answerOf, hhandler] at hstatus
    exact ⟨response, server', hhandler, Option.some.inj hstatus, hanswers⟩
  obtain ⟨hfirst, hsecond, hcopy⟩ : answerOf [] first = some .continue231 ∧
      answerOf [first] second = some .changed204 ∧
      answerOf [first, second] second = some .requestEntityIncomplete408 := by
    decide +kernel
  exact ⟨hnext hfirst, hnext hsecond, hnext hcopy⟩

end Sample

end AdaptiveLowpan
