import AdaptiveLowpan.Types

/-! # Building and parsing CoAP Block1 requests

The builder appends to an output buffer of fixed capacity, the parser walks over
the packet by offset; both go through the checked accesses of `CheckedMemory`. -/

namespace AdaptiveLowpan
open ByteWords CheckedMemory

abbrev coapTypeCon : UInt8 := 0
abbrev coapCodePost : UInt8 := 2

/-- `adaptive_coap_block_t`. The token and the payload are their used bytes; a
null payload pointer is the empty payload. -/
structure CoapBlock where
  type : UInt8
  code : UInt8
  messageId : UInt16
  token : Bytes
  blockNumber : UInt32
  more : UInt8
  szx : UInt8
  contentFormat : UInt32
  size1 : UInt32
  payload : Bytes
  deriving DecidableEq

/-! ## Building -/

/-- `encode_extended`: the nibble and the extension bytes. -/
def encodeExtended (value : ℕ) : Outcome (UInt8 × Bytes) :=
  if value < 13 then .ok (UInt8.ofNat value, [])
  else if value < 269 then .ok (13, [UInt8.ofNat (value - 13)])
  else if value ≤ 65804 then
    let adjusted := value - 269
    .ok (14, [UInt8.ofNat (adjusted >>> 8), UInt8.ofNat adjusted])
  else fail .range

/-- `append_option`, with `out` the bytes written so far. -/
def appendOption (capacity : ℕ) (out : Bytes) (delta : ℕ) (value : Bytes) : Outcome Bytes := do
  if value.length > uintMax then fail .range
  else
    let (deltaNibble, deltaExtension) ← encodeExtended delta
    let (lengthNibble, lengthExtension) ← encodeExtended value.length
    let required := 1 + deltaExtension.length + lengthExtension.length + value.length
    if out.length > capacity ∨ required > capacity - out.length then fail .capacity
    else
      let out ← emit capacity out [(deltaNibble <<< 4) ||| lengthNibble]
      let out ← emit capacity out deltaExtension
      let out ← emit capacity out lengthExtension
      emit capacity out value

/-- `encode_uint`: the shortest big-endian form, empty for zero. -/
def encodeUint (value : UInt32) : Bytes :=
  if value = 0 then []
  else
    let length :=
      if value ≤ 0xff then 1 else if value ≤ 0xffff then 2 else if value ≤ 0xffffff then 3 else 4
    (List.range length).map fun j => (value >>> UInt32.ofNat (8 * (length - 1 - j))).toUInt8

abbrev slash : UInt8 := 0x2f

def skipSlashes (cursor : Bytes) : Bytes := cursor.dropWhile (· == slash)

/-- The loop over the path segments. Each turn passes at least one character, so
`path.length + 1` turns are enough. -/
def appendSegments (capacity : ℕ) :
    ℕ → Bytes → ℕ → Bool → Bytes → Outcome (Bytes × ℕ × Bool)
  | 0, _, _, _, _ => .error .fault
  | turns + 1, cursor, previousOption, first, out =>
    if cursor = [] then .ok (out, previousOption, first)
    else
      let segment := cursor.takeWhile (· != slash)
      let rest := skipSlashes (cursor.dropWhile (· != slash))
      if segment.length > 0 then do
        let delta := if first then 11 - previousOption else 0
        let out ← appendOption capacity out delta segment
        appendSegments capacity turns rest 11 false out
      else appendSegments capacity turns rest previousOption first out

/-- `append_uri_path`: the bytes written and the number of the last option. -/
def appendUriPath (capacity : ℕ) (out path : Bytes) (previousOption : ℕ) :
    Outcome (Bytes × ℕ) := do
  let (out, previousOption, first) ←
    appendSegments capacity (path.length + 1) (skipSlashes path) previousOption true out
  if first then fail .format else return (out, previousOption)

def coapBlockSize (szx : UInt8) : ℕ := if szx > 6 then 0 else 1 <<< (szx.toNat + 4)

def blockValue (block : CoapBlock) : UInt32 :=
  (block.blockNumber <<< 4) ||| ((if block.more ≠ 0 then (1 : UInt32) else 0) <<< 3) |||
    block.szx.toUInt32

def coapHeader (block : CoapBlock) : Bytes :=
  [(0x40 : UInt8) ||| ((block.type &&& 0x03) <<< 4) ||| UInt8.ofNat block.token.length, block.code,
    (block.messageId >>> 8).toUInt8, block.messageId.toUInt8]

def coapBuildBlock1 (block : CoapBlock) (uriPath : Bytes) (outputCapacity : ℕ) :
    Outcome Bytes := do
  if block.token.length > 8 ∨ block.szx > 6 ∨ block.blockNumber > 0xfffff ∨
      outputCapacity < 4 + block.token.length then
    fail .argument
  else
    let out ← emit outputCapacity [] (coapHeader block)
    let out ← emit outputCapacity out block.token
    let (out, previousOption) ← appendUriPath outputCapacity out uriPath 0
    let out ← appendOption outputCapacity out (12 - previousOption)
      (encodeUint block.contentFormat)
    let out ← appendOption outputCapacity out (27 - 12) (encodeUint (blockValue block))
    let out ←
      (if block.size1 > 0 then appendOption outputCapacity out (60 - 27) (encodeUint block.size1)
      else .ok out)
    if block.payload.length > 0 then
      if out.length ≥ outputCapacity ∨ block.payload.length > outputCapacity - out.length - 1 then
        fail .capacity
      else
        let out ← emit outputCapacity out [0xff]
        emit outputCapacity out block.payload
    else .ok out

/-! ## Parsing -/

/-- `decode_extended`: the value and the offset after its extension. -/
def decodeExtended (nibble : UInt8) (packet : Bytes) (offset : ℕ) : Outcome (ℕ × ℕ) := do
  if nibble < 13 then .ok (nibble.toNat, offset)
  else if nibble = 13 then
    if offset ≥ packet.length then fail .format
    else
      let low ← readAt packet offset
      return (13 + low.toNat, offset + 1)
  else if nibble = 14 then
    if offset > packet.length ∨ packet.length - offset < 2 then fail .format
    else
      let high ← readAt packet offset
      let low ← readAt packet (offset + 1)
      return (269 + high.toNat * 256 + low.toNat, offset + 2)
  else fail .format

def decodeUint (input : Bytes) : Outcome UInt32 :=
  if input.length > 4 then fail .format
  else .ok (input.foldl (fun result byte => (result <<< 8) ||| byte.toUInt32) 0)

/-- The local variables of the parsing loop. -/
structure ParseState where
  offset : ℕ
  optionNumber : ℕ
  foundBlock1 : Bool
  block : CoapBlock

def storeOption (number : ℕ) (value : Bytes) (found : Bool) (block : CoapBlock) :
    Outcome (Bool × CoapBlock) := do
  if number = 12 then
    let optionValue ← decodeUint value
    return (found, { block with contentFormat := optionValue })
  else if number = 27 then
    let optionValue ← decodeUint value
    if optionValue &&& 0x07 > 6 then fail .format
    else return (true, { block with
      szx := (optionValue &&& 0x07).toUInt8
      more := ((optionValue >>> 3) &&& 0x01).toUInt8
      blockNumber := optionValue >>> 4 })
  else if number = 60 then
    let optionValue ← decodeUint value
    return (found, { block with size1 := optionValue })
  else return (found, block)

/-- One turn of the loop, past the header byte at `s.offset`. -/
def parseOption (packet : Bytes) (header : UInt8) (s : ParseState) : Outcome ParseState := do
  let (delta, offset) ← decodeExtended (header >>> 4) packet (s.offset + 1)
  let (length, offset) ← decodeExtended (header &&& 0x0f) packet offset
  if offset > packet.length ∨ length > packet.length - offset ∨ s.optionNumber > uintMax - delta then
    fail .format
  else
    let optionNumber := s.optionNumber + delta
    let value ← readSlice packet offset length
    let (found, block) ← storeOption optionNumber value s.foundBlock1 s.block
    return ⟨offset + length, optionNumber, found, block⟩

/-- The loop over the options. Each turn passes its header byte, so
`packet.length + 1` turns are enough. -/
def parseOptions (packet : Bytes) : ℕ → ParseState → Outcome ParseState
  | 0, _ => .error .fault
  | turns + 1, s =>
    if s.offset < packet.length then do
      let header ← readAt packet s.offset
      if header = 0xff then .ok s
      else
        let s ← parseOption packet header s
        parseOptions packet turns s
    else .ok s

def coapParseBlock1 (packet : Bytes) : Outcome CoapBlock := do
  if packet.length < 4 then fail .format
  else
    let first ← readAt packet 0
    if first >>> 6 ≠ 1 ∨ first &&& 0x0f > 8 then fail .format
    else
      let code ← readAt packet 1
      let idHigh ← readAt packet 2
      let idLow ← readAt packet 3
      let tokenLength := (first &&& 0x0f).toNat
      if packet.length < 4 + tokenLength then fail .format
      else
        let token ← readSlice packet 4 tokenLength
        let block : CoapBlock :=
          { type := (first >>> 4) &&& 0x03, code
            messageId := (idHigh.toUInt16 <<< 8) ||| idLow.toUInt16
            token, blockNumber := 0, more := 0, szx := 0, contentFormat := 0, size1 := 0
            payload := [] }
        let s ← parseOptions packet (packet.length + 1) ⟨4 + tokenLength, 0, false, block⟩
        if !s.foundBlock1 then fail .format
        else if s.offset < packet.length then
          if s.offset + 1 = packet.length then fail .format
          else
            let payload ← readSlice packet (s.offset + 1) (packet.length - (s.offset + 1))
            return { s.block with payload }
        else return s.block

end AdaptiveLowpan
