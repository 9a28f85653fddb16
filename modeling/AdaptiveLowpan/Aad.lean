import AdaptiveLowpan.CoapBlock

/-! # The compact associated data of a block -/

namespace AdaptiveLowpan
open ByteWords

def writeU32Be (value : UInt32) : Bytes :=
  [(value >>> 24).toUInt8, (value >>> 16).toUInt8, (value >>> 8).toUInt8, value.toUInt8]

/-- The first four token bytes, filled up with zeros. -/
def aadToken (token : Bytes) : Bytes :=
  let copy := if token.length < 4 then token.length else 4
  token.take copy ++ List.replicate (4 - copy) 0

def pipelineBuildAad (block : CoapBlock) : Bytes :=
  [0xa1, block.type, block.code, block.szx, block.more, UInt8.ofNat block.token.length] ++
    writeU32Be block.blockNumber ++ aadToken block.token ++
    [(block.contentFormat >>> 8).toUInt8, block.contentFormat.toUInt8]

@[simp] theorem length_writeU32Be (value : UInt32) : (writeU32Be value).length = 4 := rfl

@[simp] theorem length_aadToken (token : Bytes) : (aadToken token).length = 4 := by
  unfold aadToken
  split <;> simp <;> omega

@[simp] theorem length_pipelineBuildAad (block : CoapBlock) :
    (pipelineBuildAad block).length = 16 := by
  simp [pipelineBuildAad]

end AdaptiveLowpan
