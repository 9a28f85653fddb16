import AdaptiveLowpan.Receiver

/-! # The Contiki-NG server

`telemetry_post_handler`. Contiki's CoAP stack has parsed the request and sends the
response. -/

namespace AdaptiveLowpan
open ByteWords CheckedMemory CFloat

inductive StatusCode where
  | changed204 | continue231 | badRequest400 | unauthorized401 | requestEntityIncomplete408
  deriving DecidableEq

structure Block1Header where
  number : UInt32
  more : UInt8
  size : ℕ

/-- What the handler reads of a `coap_message_t`. -/
structure ServerRequest where
  type : UInt8
  code : UInt8
  token : Bytes
  block1 : Option Block1Header
  contentFormat : Option UInt32
  payload : Bytes

structure ServerResponse where
  statusCode : StatusCode
  block1 : Option Block1Header

/-- The static variables of the server, and the objects that it decodes into. The
representation and the token are their used bytes. -/
structure ContikiServer (σ F D : Type) where
  security : σ
  representation : Bytes
  nextBlock : UInt32
  activeToken : Bytes
  transferActive : Bool
  decoded : DecodeTarget F D

variable {σ F D : Type} [CDouble D] [CFloat F D]

/-- The server before its first request. The metadata are a local variable of the
handler, which holds anything. -/
def serverInit (security : σ) (metadata : CodecMetadata D) : ContikiServer σ F D where
  security := security
  representation := []
  nextBlock := 0
  activeToken := []
  transferActive := false
  decoded := ⟨List.replicate maxWindow zeroFloat, 0, some metadata⟩

def szxFromSize (size : ℕ) : Option UInt8 :=
  [0, 1, 2, 3, 4, 5, 6].find? fun candidate => coapBlockSize candidate = size

def ContikiServer.restart (server : ContikiServer σ F D) (number : UInt32) (token : Bytes) :
    ContikiServer σ F D :=
  if number = 0 then
    { server with
      representation := [], nextBlock := 0, activeToken := token, transferActive := true }
  else server

/-- `telemetry_post_handler` from the order and token checks on. -/
def serverAcceptBlock (P : SecurityProvider σ) (server : ContikiServer σ F D)
    (request : ServerRequest) (header : Block1Header) (aad : Bytes) :
    Outcome ServerResponse × ContikiServer σ F D :=
  if !server.transferActive ∨ header.number ≠ server.nextBlock ∨
      request.token.length ≠ server.activeToken.length ∨ request.token ≠ server.activeToken then
    (.ok ⟨.requestEntityIncomplete408, none⟩, server)
  else
    match securityOpen P server.security (some request.payload) aad maxBlockSize with
    | (.error _, security) => (.ok ⟨.unauthorized401, none⟩, { server with security })
    | (.ok plaintext, security) =>
      let server := { server with security }
      if plaintext.length > sizeSub maxRepresentation server.representation.length then
        (.ok ⟨.unauthorized401, none⟩, server)
      else
        match emit maxRepresentation server.representation plaintext with
        | .error e => (.error e, server)
        | .ok representation =>
          let server := { server with representation, nextBlock := server.nextBlock + 1 }
          if header.more ≠ 0 then (.ok ⟨.continue231, some header⟩, server)
          else
            match codecDecode server.representation server.decoded with
            | (.error _, decoded) =>
              (.ok ⟨.badRequest400, some header⟩, { server with decoded })
            | (.ok (), decoded) =>
              (.ok ⟨.changed204, some header⟩, { server with decoded, transferActive := false })

def telemetryPostHandler (P : SecurityProvider σ) (server : ContikiServer σ F D)
    (request : ServerRequest) : Outcome ServerResponse × ContikiServer σ F D :=
  match request.block1 with
  | none => (.ok ⟨.badRequest400, none⟩, server)
  | some header =>
    if request.payload = [] then (.ok ⟨.badRequest400, none⟩, server)
    else
      match szxFromSize header.size with
      | none => (.ok ⟨.badRequest400, none⟩, server)
      | some szx =>
        if request.token.length = 0 ∨ request.token.length > 8 then
          (.ok ⟨.badRequest400, none⟩, server)
        else
          let block : CoapBlock :=
            { type := request.type
              code := request.code
              messageId := 0
              token := request.token
              blockNumber := header.number
              more := header.more
              szx := szx
              contentFormat := request.contentFormat.getD 0
              size1 := 0
              payload := [] }
          serverAcceptBlock P (server.restart header.number request.token) request header
            (pipelineBuildAad block)

end AdaptiveLowpan
