import AdaptiveLowpan.CodecRoundTrip
import AdaptiveLowpan.Packets
import AdaptiveLowpan.Receiver

/-! # What the receiver does with the blocks of a window

A block that is expected and fresh extends the representation by its slice; an
expected block that is stale is a replay; every other block fails the order and token
checks. Only block 0 changes the state before these checks. -/

namespace AdaptiveLowpan
open ByteWords CheckedMemory Slices

theorem TransferPlan.Valid.blockCount_le {overhead : ℕ} {plan : TransferPlan}
    (h : plan.Valid overhead) : plan.blockCount ≤ plan.representation.length := by
  by_contra hlt
  have hlast := h.lt_blockCount.mp (Nat.lt_of_not_le hlt)
  have hcapacity := Nat.le_mul_of_pos_right plan.representation.length h.capacity_pos
  omega

theorem TransferPlan.Valid.length_slice_pos {overhead : ℕ} {plan : TransferPlan}
    (h : plan.Valid overhead) {i : ℕ} (hi : i < plan.blockCount) : 0 < (plan.slice i).length := by
  have hlt := h.lt_blockCount.mp hi
  have hpos := h.capacity_pos
  rw [TransferPlan.slice, Slices.slice, List.length_take, List.length_drop]
  omega

theorem TransferPlan.length_sentUpTo_le (plan : TransferPlan) (i : ℕ) :
    (plan.sentUpTo i).length ≤ plan.representation.length := by
  rw [sentUpTo, List.length_take]
  omega

/-- What a pipeline plans to send: its block count fits the block number. -/
structure TransferPlan.Bounded (overhead : ℕ) (plan : TransferPlan) : Prop
    extends plan.Valid overhead where
  length_le : plan.representation.length ≤ maxRepresentation

theorem TransferPlan.Bounded.blockCount_lt {overhead : ℕ} {plan : TransferPlan}
    (h : plan.Bounded overhead) : plan.blockCount < 2 ^ 32 := by
  have hcount := h.blockCount_le
  have hlength : plan.representation.length ≤ 1088 := h.length_le
  omega

/-- Block numbers below the block count are told apart. -/
theorem TransferPlan.Bounded.ofNat_inj {overhead : ℕ} {plan : TransferPlan}
    (h : plan.Bounded overhead) {i j : ℕ} (hi : i ≤ plan.blockCount) (hj : j ≤ plan.blockCount) :
    UInt32.ofNat i = UInt32.ofNat j ↔ i = j := by
  have hcount := h.blockCount_lt
  rw [← UInt32.toNat_inj, UInt32.toNat_ofNat', UInt32.toNat_ofNat',
    Nat.mod_eq_of_lt (by omega), Nat.mod_eq_of_lt (by omega)]

variable {F D σ : Type} [CDouble D] [CFloat F D] {P : SecurityProvider σ}

theorem Planned.bounded {overhead : ℕ} {pipeline : Pipeline D σ} {samples : List F}
    {metrics : NetworkMetrics D} {window : EncodedWindow D} {plan : TransferPlan}
    (h : Planned overhead pipeline samples metrics window plan) :
    plan.Bounded overhead ∧ plan.representation = window.representation ∧
      plan.windowId = window.windowId ∧ 0 < plan.blockCount := by
  obtain ⟨hvalid, hid, hrep, -⟩ := planTransfer_eq_ok h.planned
  obtain ⟨a, -, hbytes, -, hlength⟩ := codecEncode_eq_ok h.bytes
  refine ⟨⟨hvalid, hrep ▸ hlength⟩, hrep, hid, ?_⟩
  apply hvalid.lt_blockCount.mpr
  rw [Nat.zero_mul, hrep, hbytes, List.length_append, List.length_append, length_writeU32]
  omega

/-- The receiver has taken the first `i` blocks of a window and waits for the next. -/
structure Receiver.Holds (receiver : Receiver σ) (plan : TransferPlan) (i : ℕ) : Prop where
  active : receiver.active = true
  nextBlock : receiver.nextBlock = UInt32.ofNat i
  token : receiver.token = writeU32Be plan.windowId
  representation : receiver.representation = plan.sentUpTo i

def Receiver.begin (receiver : Receiver σ) (token : Bytes) : Receiver σ :=
  { receiver with representation := [], nextBlock := 0, token, active := true }

theorem Receiver.holds_begin (receiver : Receiver σ) (plan : TransferPlan) :
    (receiver.begin (writeU32Be plan.windowId)).Holds plan 0 :=
  ⟨rfl, rfl, rfl, by simp [begin, TransferPlan.sentUpTo]⟩

theorem Receiver.restart_of_zero {receiver : Receiver σ} {block : CoapBlock}
    (h : block.blockNumber = 0) : receiver.restart block = receiver.begin block.token := if_pos h

theorem Receiver.restart_of_ne {receiver : Receiver σ} {block : CoapBlock}
    (h : block.blockNumber ≠ 0) : receiver.restart block = receiver := if_neg h

@[simp] theorem Receiver.restart_security (receiver : Receiver σ) (block : CoapBlock) :
    (receiver.restart block).security = receiver.security := by
  by_cases h : block.blockNumber = 0
  · rw [restart_of_zero h]
    rfl
  · rw [restart_of_ne h]

theorem Receiver.expects_iff {receiver : Receiver σ} {block : CoapBlock} :
    receiver.expects block = true ↔
      receiver.active = true ∧ block.blockNumber = receiver.nextBlock ∧
        block.token = receiver.token := by
  simp only [expects, decide_eq_true_iff]
  constructor
  · rintro ⟨hactive, hnumber, -, htoken⟩
    exact ⟨hactive, hnumber, htoken⟩
  · rintro ⟨hactive, hnumber, htoken⟩
    exact ⟨hactive, hnumber, congrArg List.length htoken, htoken⟩

def Receiver.store (receiver : Receiver σ) (security : σ) (plaintext : Bytes) : Receiver σ :=
  { receiver with
    security
    representation := receiver.representation ++ plaintext
    nextBlock := receiver.nextBlock + 1 }

theorem receiverAccept_of_open {receiver : Receiver σ} {packet plaintext : Bytes}
    {block : CoapBlock} {security : σ} (out : DecodeTarget F D)
    (hparse : coapParseBlock1 packet = .ok block)
    (hexpects : (receiver.restart block).expects block = true)
    (hopen : securityOpen P receiver.security block.payloadPointer (pipelineBuildAad block)
      maxBlockSize = (.ok plaintext, security))
    (hroom : (receiver.restart block).representation.length + plaintext.length ≤
      maxRepresentation) :
    receiverAccept P receiver packet out =
      if block.more ≠ 0 then
        (.ok .ok, (receiver.restart block).store security plaintext, out)
      else
        match codecDecode ((receiver.restart block).representation ++ plaintext) out with
        | (.error e, out) => (.error e, (receiver.restart block).store security plaintext, out)
        | (.ok (), out) => (.ok .complete,
            { (receiver.restart block).store security plaintext with active := false }, out) := by
  have hmax : maxRepresentation = 1088 := rfl
  have hfits : ¬plaintext.length >
      sizeSub maxRepresentation (receiver.restart block).representation.length := by
    rw [sizeSub]
    omega
  rw [receiverAccept, hparse]
  simp only
  rw [receiverAcceptBlock]
  simp only [Receiver.restart_security, hexpects, Bool.not_true, Bool.false_eq_true, if_false,
    hopen]
  rw [if_neg hfits, emit_of_le hroom]
  rfl

/-- Everything that a call of `receiverAccept` can do. -/
inductive Receiver.Accepts (P : SecurityProvider σ) (receiver : Receiver σ) (packet : Bytes)
    (out : DecodeTarget F D) : Outcome Accepted × Receiver σ × DecodeTarget F D → Prop where
  | malformed {e} (hparse : coapParseBlock1 packet = .error e) :
      Accepts P receiver packet out (.error e, receiver, out)
  | unexpected {block} (hparse : coapParseBlock1 packet = .ok block)
      (hexpects : (receiver.restart block).expects block = false) :
      Accepts P receiver packet out (fail .format, receiver.restart block, out)
  | unopened {block e security} (hparse : coapParseBlock1 packet = .ok block)
      (hexpects : (receiver.restart block).expects block = true)
      (hopen : securityOpen P receiver.security block.payloadPointer (pipelineBuildAad block)
        maxBlockSize = (.error e, security)) :
      Accepts P receiver packet out (.error e, { receiver.restart block with security }, out)
  | overflow {block plaintext security e} (hparse : coapParseBlock1 packet = .ok block)
      (hexpects : (receiver.restart block).expects block = true)
      (hopen : securityOpen P receiver.security block.payloadPointer (pipelineBuildAad block)
        maxBlockSize = (.ok plaintext, security))
      (hfull : maxRepresentation < (receiver.restart block).representation.length +
        plaintext.length) :
      Accepts P receiver packet out (.error e, { receiver.restart block with security }, out)
  | stored {block plaintext security} (hparse : coapParseBlock1 packet = .ok block)
      (hexpects : (receiver.restart block).expects block = true)
      (hopen : securityOpen P receiver.security block.payloadPointer (pipelineBuildAad block)
        maxBlockSize = (.ok plaintext, security))
      (hroom : (receiver.restart block).representation.length + plaintext.length ≤
        maxRepresentation) (hmore : block.more ≠ 0) :
      Accepts P receiver packet out (.ok .ok, (receiver.restart block).store security plaintext, out)
  | undecoded {block plaintext security e out'} (hparse : coapParseBlock1 packet = .ok block)
      (hexpects : (receiver.restart block).expects block = true)
      (hopen : securityOpen P receiver.security block.payloadPointer (pipelineBuildAad block)
        maxBlockSize = (.ok plaintext, security))
      (hroom : (receiver.restart block).representation.length + plaintext.length ≤
        maxRepresentation) (hlast : block.more = 0)
      (hdecode : codecDecode ((receiver.restart block).representation ++ plaintext) out =
        (.error e, out')) :
      Accepts P receiver packet out
        (.error e, (receiver.restart block).store security plaintext, out')
  | complete {block plaintext security out'} (hparse : coapParseBlock1 packet = .ok block)
      (hexpects : (receiver.restart block).expects block = true)
      (hopen : securityOpen P receiver.security block.payloadPointer (pipelineBuildAad block)
        maxBlockSize = (.ok plaintext, security))
      (hroom : (receiver.restart block).representation.length + plaintext.length ≤
        maxRepresentation) (hlast : block.more = 0)
      (hdecode : codecDecode ((receiver.restart block).representation ++ plaintext) out =
        (.ok (), out')) :
      Accepts P receiver packet out (.ok .complete,
        { (receiver.restart block).store security plaintext with active := false }, out')

theorem receiverAccept_accepts (P : SecurityProvider σ) (receiver : Receiver σ) (packet : Bytes)
    (out : DecodeTarget F D) :
    Receiver.Accepts P receiver packet out (receiverAccept P receiver packet out) := by
  cases hparse : coapParseBlock1 packet with
  | error e =>
    rw [receiverAccept, hparse]
    exact .malformed hparse
  | ok block =>
    cases hexpects : (receiver.restart block).expects block with
    | false =>
      rw [receiverAccept, hparse]
      simp only
      rw [receiverAcceptBlock, hexpects]
      exact .unexpected hparse hexpects
    | true =>
      cases hopened : securityOpen P receiver.security block.payloadPointer
          (pipelineBuildAad block) maxBlockSize with
      | mk r security =>
        cases r with
        | error e =>
          rw [receiverAccept, hparse]
          simp only
          rw [receiverAcceptBlock]
          simp only [Receiver.restart_security, hexpects, hopened, Bool.not_true,
            Bool.false_eq_true, if_false]
          exact .unopened hparse hexpects hopened
        | ok plaintext =>
          by_cases hroom : (receiver.restart block).representation.length + plaintext.length ≤
              maxRepresentation
          · rw [receiverAccept_of_open out hparse hexpects hopened hroom]
            by_cases hmore : block.more ≠ 0
            · rw [if_pos hmore]
              exact .stored hparse hexpects hopened hroom hmore
            · rw [if_neg hmore]
              have hlast : block.more = 0 := not_not.mp hmore
              cases hdecoded : codecDecode ((receiver.restart block).representation ++ plaintext)
                  out with
              | mk d out' =>
                cases d with
                | error e => exact .undecoded hparse hexpects hopened hroom hlast hdecoded
                | ok u => exact .complete hparse hexpects hopened hroom hlast hdecoded
          · have hfull := Nat.lt_of_not_le hroom
            rw [receiverAccept, hparse]
            simp only
            rw [receiverAcceptBlock]
            simp only [Receiver.restart_security, hexpects, hopened, Bool.not_true,
              Bool.false_eq_true, if_false]
            split
            · exact .overflow hparse hexpects hopened hfull
            · rw [emit, if_neg hroom]
              exact .overflow hparse hexpects hopened hfull

section Block

variable {L : RecordLayer P} {plan : TransferPlan} {i : ℕ} {receiver : Receiver σ}
  {packet : Bytes} {sequence : UInt64} {key : L.Key}

theorem Receiver.restart_sentBlock (receiver : Receiver σ) (hplan : plan.Bounded P.overhead)
    (hi : i < plan.blockCount) (messageId : UInt16) (record : Bytes) :
    receiver.restart (plan.sentBlock messageId i record) =
      if i = 0 then receiver.begin (writeU32Be plan.windowId) else receiver := by
  by_cases hzero : i = 0
  · subst hzero
    rfl
  · rw [if_neg hzero]
    apply restart_of_ne
    intro h0
    exact hzero ((hplan.ofNat_inj hi.le (Nat.zero_le _)).mp h0)

/-- Before the block of number `i` is checked, a receiver that waits for it, or any
receiver if it is block 0, holds what was sent before it. -/
theorem Receiver.holds_restart (hplan : plan.Bounded P.overhead) (hi : i < plan.blockCount)
    (hholds : i = 0 ∨ receiver.Holds plan i) (messageId : UInt16) (record : Bytes) :
    (receiver.restart (plan.sentBlock messageId i record)).Holds plan i := by
  rw [restart_sentBlock receiver hplan hi]
  by_cases hzero : i = 0
  · rw [if_pos hzero, hzero]
    exact receiver.holds_begin plan
  · rw [if_neg hzero]
    exact hholds.resolve_left hzero

theorem Receiver.Holds.expects (h : receiver.Holds plan i) (messageId : UInt16) (record : Bytes) :
    receiver.expects (plan.sentBlock messageId i record) = true :=
  expects_iff.mpr ⟨h.active, h.nextBlock.symm, h.token.symm⟩

omit [CDouble D] [CFloat F D] in
theorem payloadPointer_sentBlock (hplan : plan.Bounded P.overhead) (hi : i < plan.blockCount)
    {messageId : UInt16} {record : Bytes}
    (hlen : record.length = (plan.slice i).length + P.overhead) :
    (plan.sentBlock messageId i record).payloadPointer = some record := by
  have hpos := hplan.length_slice_pos hi
  rw [CoapBlock.payloadPointer, if_neg]
  · rfl
  · intro hnil
    have hzero : record.length = 0 := congrArg List.length hnil
    omega

/-- The next block, fresh: the session opens it to its slice. -/
theorem receiverAccept_next (hplan : plan.Bounded P.overhead) (hi : i < plan.blockCount)
    (hpacket : IsBlockPacket L (L.openKey receiver.security) plan i sequence packet)
    (hfresh : ∀ h ∈ L.highest receiver.security, h < sequence)
    (hholds : i = 0 ∨ receiver.Holds plan i) (out : DecodeTarget F D) :
    ∃ receiver' : Receiver σ, receiver'.Holds plan (i + 1) ∧
      L.openKey receiver'.security = L.openKey receiver.security ∧
      L.highest receiver'.security = some sequence ∧
      receiverAccept P receiver packet out =
        if i + 1 < plan.blockCount then (.ok .ok, receiver', out)
        else
          match codecDecode (plan.sentUpTo (i + 1)) out with
          | (.error e, out) => (.error e, receiver', out)
          | (.ok (), out) => (.ok .complete, { receiver' with active := false }, out) := by
  obtain ⟨messageId, record, hparse, hrecord, hnumber, hlen⟩ := hpacket
  have hstart := Receiver.holds_restart hplan hi hholds messageId record
  have hroom := hplan.length_slice_le i
  have hblock := hplan.blockSize_le
  have hcapacity : (plan.slice i).length ≤ maxBlockSize := by omega
  obtain ⟨security, hopen, hhighest⟩ := L.open_fresh hrecord hcapacity (hnumber ▸ hfresh)
  obtain ⟨-, hkey, -⟩ := L.open_keeps hopen
  have hopened : securityOpen P receiver.security
      (plan.sentBlock messageId i record).payloadPointer
      (pipelineBuildAad (plan.sentBlock messageId i record)) maxBlockSize =
        (.ok (plan.slice i), security) := by
    rw [payloadPointer_sentBlock hplan hi hlen]
    exact hopen
  -- what is held and the slice are a prefix of the representation
  have hstored : (receiver.restart (plan.sentBlock messageId i record)).representation ++
      plan.slice i = plan.sentUpTo (i + 1) := by
    rw [hstart.representation, plan.sentUpTo_succ]
  have hfits : (receiver.restart (plan.sentBlock messageId i record)).representation.length +
      (plan.slice i).length ≤ maxRepresentation := by
    rw [← List.length_append, hstored]
    exact (plan.length_sentUpTo_le (i + 1)).trans hplan.length_le
  refine ⟨(receiver.restart (plan.sentBlock messageId i record)).store security (plan.slice i),
    ⟨hstart.active, ?_, hstart.token, hstored⟩, hkey, hhighest.trans (congrArg some hnumber), ?_⟩
  · change (receiver.restart (plan.sentBlock messageId i record)).nextBlock + 1 = _
    rw [hstart.nextBlock, UInt32.ofNat_add]
    rfl
  · rw [receiverAccept_of_open out hparse (hstart.expects messageId record) hopened hfits, hstored]
    change (if (if i + 1 < plan.blockCount then (1 : UInt8) else 0) ≠ 0 then _ else _) = _
    by_cases hmore : i + 1 < plan.blockCount
    · rw [if_pos hmore, if_pos hmore, if_pos (by decide)]
    · rw [if_neg hmore, if_neg hmore, if_neg (by decide)]

omit [CDouble D] [CFloat F D] in
/-- A block other than block 0 that the receiver does not wait for. -/
theorem Receiver.not_expects (hplan : plan.Bounded P.overhead) (hi : i < plan.blockCount)
    (hwait : ¬(receiver.active = true ∧ receiver.nextBlock = UInt32.ofNat i))
    (hpos : i ≠ 0) (messageId : UInt16) (record : Bytes) :
    (receiver.restart (plan.sentBlock messageId i record)).expects
      (plan.sentBlock messageId i record) = false := by
  rw [restart_sentBlock receiver hplan hi, if_neg hpos, Bool.eq_false_iff]
  intro hexpects
  obtain ⟨hactive, hnumber, -⟩ := expects_iff.mp hexpects
  exact hwait ⟨hactive, hnumber.symm⟩

theorem receiverAccept_unexpected (hplan : plan.Bounded P.overhead) (hi : i < plan.blockCount)
    (hpacket : IsBlockPacket L key plan i sequence packet)
    (hwait : ¬(receiver.active = true ∧ receiver.nextBlock = UInt32.ofNat i))
    (hpos : i ≠ 0) (out : DecodeTarget F D) :
    receiverAccept P receiver packet out = (fail .format, receiver, out) := by
  obtain ⟨messageId, record, hparse, -⟩ := hpacket
  have hexpects := Receiver.not_expects hplan hi hwait hpos messageId record
  rw [receiverAccept, hparse]
  simp only
  rw [receiverAcceptBlock, hexpects, Receiver.restart_sentBlock receiver hplan hi, if_neg hpos]
  rfl

/-- A block that was opened before is a replay or out of order; only block 0 resets
the state on the way. -/
theorem receiverAccept_stale (hplan : plan.Bounded P.overhead) (hi : i < plan.blockCount)
    (hpacket : IsBlockPacket L (L.openKey receiver.security) plan i sequence packet)
    {h : UInt64} (hh : h ∈ L.highest receiver.security) (hstale : sequence ≤ h)
    (out : DecodeTarget F D) :
    ∃ e, receiverAccept P receiver packet out =
      (fail e, if i = 0 then receiver.begin (writeU32Be plan.windowId) else receiver, out) := by
  obtain ⟨messageId, record, hparse, hrecord, hnumber, hlen⟩ := hpacket
  have hroom := hplan.length_slice_le i
  have hblock := hplan.blockSize_le
  have hcapacity : (plan.slice i).length ≤ maxBlockSize := by omega
  have hopened : securityOpen P receiver.security
      (plan.sentBlock messageId i record).payloadPointer
      (pipelineBuildAad (plan.sentBlock messageId i record)) maxBlockSize =
        (fail .replay, receiver.security) := by
    rw [payloadPointer_sentBlock hplan hi hlen]
    exact L.open_replay hrecord hcapacity hh (hnumber ▸ hstale)
  have hrestart := Receiver.restart_sentBlock receiver hplan hi messageId record
  rw [receiverAccept, hparse]
  simp only
  rw [receiverAcceptBlock, ← hrestart]
  cases hexpects : (receiver.restart (plan.sentBlock messageId i record)).expects
      (plan.sentBlock messageId i record) with
  | false => exact ⟨.format, rfl⟩
  | true =>
    refine ⟨.replay, ?_⟩
    simp only [Bool.not_true, Bool.false_eq_true, if_false, Receiver.restart_security, hopened, fail]
    rw [← receiver.restart_security (plan.sentBlock messageId i record)]

/-- Any call on a sent block keeps the key and does not lower the highest number; a
call that completes a window was on its last block, with a fresh number. -/
theorem receiverAccept_number (hplan : plan.Bounded P.overhead) (hi : i < plan.blockCount)
    (hpacket : IsBlockPacket L (L.openKey receiver.security) plan i sequence packet)
    (out : DecodeTarget F D) :
    L.openKey (receiverAccept P receiver packet out).2.1.security =
        L.openKey receiver.security ∧
      (∀ h ∈ L.highest receiver.security,
        ∃ h' ∈ L.highest (receiverAccept P receiver packet out).2.1.security, h ≤ h') ∧
      ((receiverAccept P receiver packet out).1 = .ok .complete →
        i + 1 = plan.blockCount ∧ ∀ h ∈ L.highest receiver.security, h < sequence) := by
  obtain ⟨messageId, record, hparse, hrecord, hnumber, hlen⟩ := hpacket
  have hroom := hplan.length_slice_le i
  have hblock := hplan.blockSize_le
  have hcapacity : (plan.slice i).length ≤ maxBlockSize := by omega
  have hpointer : (plan.sentBlock messageId i record).payloadPointer = some record :=
    payloadPointer_sentBlock hplan hi hlen
  have hopened {plaintext : Bytes} {security : σ} (h : securityOpen P receiver.security
      (plan.sentBlock messageId i record).payloadPointer
      (pipelineBuildAad (plan.sentBlock messageId i record)) maxBlockSize =
        (.ok plaintext, security)) :
      L.openKey security = L.openKey receiver.security ∧
        (∀ h ∈ L.highest receiver.security, ∃ h' ∈ L.highest security, h ≤ h') ∧
        ∀ h ∈ L.highest receiver.security, h < sequence := by
    rw [hpointer] at h
    obtain ⟨hkey, hhighest, hfresh⟩ := L.open_ok hrecord hcapacity h
    rw [hnumber] at hhighest hfresh
    exact ⟨hkey, fun top htop => ⟨sequence, hhighest, UInt64.le_of_lt (hfresh top htop)⟩, hfresh⟩
  have haccepts := receiverAccept_accepts P receiver packet out
  generalize receiverAccept P receiver packet out = r at haccepts ⊢
  cases haccepts with
  | malformed hparse' =>
    rw [hparse] at hparse'
    cases hparse'
  | unexpected hparse' hexpects =>
    simp only [Receiver.restart_security, true_and]
    exact ⟨fun top htop => ⟨top, htop, UInt64.le_refl top⟩, fun hr => by cases hr⟩
  | unopened hparse' hexpects hopen =>
    rw [hparse] at hparse'
    cases hparse'
    rw [hpointer] at hopen
    obtain rfl := L.open_error hopen
    exact ⟨rfl, fun top htop => ⟨top, htop, UInt64.le_refl top⟩, fun hr => by cases hr⟩
  | overflow hparse' hexpects hopen hfull =>
    rw [hparse] at hparse'
    cases hparse'
    obtain ⟨hkey, hhighest, -⟩ := hopened hopen
    exact ⟨hkey, hhighest, fun hr => by cases hr⟩
  | stored hparse' hexpects hopen hroom hmore =>
    rw [hparse] at hparse'
    cases hparse'
    obtain ⟨hkey, hhighest, -⟩ := hopened hopen
    exact ⟨hkey, hhighest, fun hr => by cases hr⟩
  | undecoded hparse' hexpects hopen hroom hlast hdecode =>
    rw [hparse] at hparse'
    cases hparse'
    obtain ⟨hkey, hhighest, -⟩ := hopened hopen
    exact ⟨hkey, hhighest, fun hr => by cases hr⟩
  | complete hparse' hexpects hopen hroom hlast hdecode =>
    rw [hparse] at hparse'
    cases hparse'
    obtain ⟨hkey, hhighest, hfresh⟩ := hopened hopen
    refine ⟨hkey, hhighest, fun _ => ⟨?_, hfresh⟩⟩
    by_contra hne
    have hmore : i + 1 < plan.blockCount := by omega
    change (if i + 1 < plan.blockCount then (1 : UInt8) else 0) = 0 at hlast
    rw [if_pos hmore] at hlast
    exact absurd hlast (by decide)

end Block

end AdaptiveLowpan
