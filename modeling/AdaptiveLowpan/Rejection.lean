import AdaptiveLowpan.EndToEnd

/-! # What a rejected packet leaves behind

Every packet that is rejected before its record is opened leaves the reassembly state
alone, unless it is a block 0: that one resets the state before anything about it has
been authenticated. -/

namespace AdaptiveLowpan
open ByteWords CheckedMemory

variable {F D σ : Type} [CDouble D] [CFloat F D] {P : SecurityProvider σ}

/-- The part of the receiver that is about the window in progress. -/
structure Reassembly where
  representation : Bytes
  nextBlock : UInt32
  token : Bytes
  active : Bool
  deriving DecidableEq

def Receiver.reassembly (receiver : Receiver σ) : Reassembly where
  representation := receiver.representation
  nextBlock := receiver.nextBlock
  token := receiver.token
  active := receiver.active

def Reassembly.start (token : Bytes) : Reassembly := ⟨[], 0, token, true⟩

/-- A packet that is malformed, out of order or of another token, or whose record the
session does not open. -/
inductive Receiver.Rejects (P : SecurityProvider σ) (receiver : Receiver σ) (packet : Bytes) :
    Prop where
  | malformed {e} (hparse : coapParseBlock1 packet = .error e) : Rejects P receiver packet
  | unexpected {block} (hparse : coapParseBlock1 packet = .ok block)
      (hexpects : (receiver.restart block).expects block = false) : Rejects P receiver packet
  | unopened {block e security} (hparse : coapParseBlock1 packet = .ok block)
      (hexpects : (receiver.restart block).expects block = true)
      (hopen : securityOpen P receiver.security block.payloadPointer (pipelineBuildAad block)
        maxBlockSize = (.error e, security)) : Rejects P receiver packet

theorem Receiver.reassembly_restart (receiver : Receiver σ) (block : CoapBlock) :
    (receiver.restart block).reassembly =
      if block.blockNumber = 0 then Reassembly.start block.token else receiver.reassembly := by
  by_cases hzero : block.blockNumber = 0
  · rw [restart_of_zero hzero, if_pos hzero]
    rfl
  · rw [restart_of_ne hzero, if_neg hzero]

/-- A rejected packet that parses has made its reset and nothing else. -/
theorem receiverAccept_rejected {receiver : Receiver σ} {packet : Bytes} {block : CoapBlock}
    (h : receiver.Rejects P packet) (hparse : coapParseBlock1 packet = .ok block)
    (out : DecodeTarget F D) :
    (∃ e, (receiverAccept P receiver packet out).1 = .error e) ∧
      (receiverAccept P receiver packet out).2.1.reassembly =
        (receiver.restart block).reassembly := by
  cases h with
  | malformed hmalformed =>
    rw [hparse] at hmalformed
    cases hmalformed
  | unexpected hparse' hexpects =>
    rw [hparse] at hparse'
    cases hparse'
    rw [receiverAccept, hparse]
    simp only
    rw [receiverAcceptBlock, hexpects]
    exact ⟨⟨_, rfl⟩, rfl⟩
  | unopened hparse' hexpects hopen =>
    rw [hparse] at hparse'
    cases hparse'
    rw [receiverAccept, hparse]
    simp only
    rw [receiverAcceptBlock]
    simp only [Receiver.restart_security, hexpects, hopen, Bool.not_true, Bool.false_eq_true,
      if_false]
    exact ⟨⟨_, rfl⟩, rfl⟩

/-- A rejected packet leaves the reassembly state alone if and only if it is no block 0,
or the state was already at the start of a transfer with its token. -/
theorem receiverAccept_rejected_keeps_iff (P : SecurityProvider σ) (receiver : Receiver σ)
    (packet : Bytes) (out : DecodeTarget F D) (h : receiver.Rejects P packet) :
    (receiverAccept P receiver packet out).2.1.reassembly = receiver.reassembly ↔
      ∀ block, coapParseBlock1 packet = .ok block → block.blockNumber = 0 →
        receiver.reassembly = Reassembly.start block.token := by
  cases hparse : coapParseBlock1 packet with
  | error e =>
    rw [receiverAccept, hparse]
    constructor
    · intro _ block hblock
      cases hblock
    · intro _
      rfl
  | ok block =>
    obtain ⟨-, hkept⟩ := receiverAccept_rejected h hparse out
    rw [hkept, receiver.reassembly_restart]
    constructor
    · intro hsame block' hblock' hzero
      cases hblock'
      rw [if_pos hzero] at hsame
      exact hsame.symm
    · intro hstart
      by_cases hzero : block.blockNumber = 0
      · rw [if_pos hzero]
        exact (hstart block rfl hzero).symm
      · rw [if_neg hzero]

def midTransfer : Receiver TestContext :=
  (acceptAll testProvider (receiverInit (securityTestPair 7).2) smallTarget
    [firstPacket]).2.1

/-- A block 0 with token 9 and one byte that is no record. -/
def forgedPacket : Bytes := [0x44, 0x02, 0, 1, 0, 0, 0, 9, 0xd0, 0x0e, 0xff, 0]

def forgedBlock : CoapBlock where
  type := 0
  code := 2
  messageId := 1
  token := [0, 0, 0, 9]
  blockNumber := 0
  more := 0
  szx := 0
  contentFormat := 0
  size1 := 0
  payload := [0]

theorem forged_rejected : midTransfer.Rejects testProvider forgedPacket :=
  .unopened (by decide : coapParseBlock1 forgedPacket = .ok forgedBlock) rfl rfl

theorem receiverAccept_rejected_keeps_iff_forged :
    (receiverAccept testProvider midTransfer forgedPacket smallTarget).2.1.reassembly =
        midTransfer.reassembly ↔
      ∀ block, coapParseBlock1 forgedPacket = .ok block → block.blockNumber = 0 →
        midTransfer.reassembly = Reassembly.start block.token :=
  receiverAccept_rejected_keeps_iff testProvider midTransfer forgedPacket smallTarget
    forged_rejected

/-- A packet that anyone can send is rejected in the middle of a window, and has thrown
the window away: its remaining packet is then out of order. -/
theorem forged_block_resets :
    midTransfer.Rejects testProvider forgedPacket ∧
    (receiverAccept testProvider midTransfer forgedPacket smallTarget).1 = fail .format ∧
    (receiverAccept testProvider midTransfer forgedPacket smallTarget).2.1.reassembly ≠
      midTransfer.reassembly ∧
    (acceptAll testProvider midTransfer smallTarget [secondPacket]).1 = [.ok .complete] ∧
    (acceptAll testProvider midTransfer smallTarget [forgedPacket, secondPacket]).1 =
      [fail .format, fail .format] := by
  -- One evaluation, which builds the packets of the recorded call once.
  refine ⟨forged_rejected, ?_⟩
  decide +kernel

end AdaptiveLowpan
