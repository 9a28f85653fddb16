import AdaptiveLowpan.EndToEnd
import AdaptiveLowpan.Logging

/-! # Reassembly over an arbitrary network

One pipeline and one receiver, with a network between them that may deliver any bytes at
any time. The records that the receiver opens are sealed ones, each above all earlier
ones; nothing else is assumed about the packets. -/

namespace AdaptiveLowpan
open ByteWords CheckedMemory Slices

/-- The two ends with their logs, the number of calls of the pipeline, the windows that it
has encoded, and for every `ADAPTIVE_COMPLETE` the token of the transfer and the bytes that
were decoded. -/
structure World (D σ ρ : Type) where
  pipeline : Pipeline D (σ × SessionLog)
  receiver : Receiver (ρ × SessionLog)
  calls : ℕ
  encoded : List (EncodedWindow D)
  completed : List (Bytes × Bytes)

variable {F D σ ρ : Type}

def encodedBy : Outcome (EncodedWindow D) → List (EncodedWindow D)
  | .ok window => [window]
  | .error _ => []

def completedBy (result : Outcome Accepted) (receiver : Receiver ρ) : List (Bytes × Bytes) :=
  match result with
  | .ok .complete => [(receiver.token, receiver.representation)]
  | _ => []

@[simp] theorem completedBy_error (e : Stop Failure) (receiver : Receiver ρ) :
    completedBy (.error e) receiver = [] := rfl

@[simp] theorem completedBy_stored (receiver : Receiver ρ) :
    completedBy (.ok .ok) receiver = [] := rfl

/-- What an ideal AEAD lets a call open: a sealed record under its associated data, to its
plaintext, with a number above every earlier one. -/
def IdealOpen (sealed before after : List Sealed) : Prop :=
  ∀ entry, after = before ++ [entry] →
    entry ∈ sealed ∧ ∀ earlier ∈ before, recordSequence earlier.record < recordSequence entry.record

instance (sealed before after : List Sealed) : Decidable (IdealOpen sealed before after) :=
  decidable_of_iff (∀ entry ∈ after, after = before ++ [entry] → entry ∈ sealed ∧
      ∀ earlier ∈ before, recordSequence earlier.record < recordSequence entry.record) <| by
    constructor
    · intro h entry hafter
      exact h entry (by rw [hafter]; exact List.mem_append_right _ (List.mem_singleton_self entry))
        hafter
    · intro h entry _ hafter
      exact h entry hafter

variable [CDouble D] [CFloat F D]

/-- A call of `pipelineProcess` with any samples, metrics and send, of which there are at
most `2 ^ 32 - 1`, or a call of `receiverAccept` on any packet. -/
inductive World.Step (F : Type) [CFloat F D] (P : SecurityProvider σ) (Q : SecurityProvider ρ) :
    World D σ ρ → World D σ ρ → Prop where
  | process {w : World D σ ρ} {τ : Type} {samples : List F} {metrics} {send : TransportSend τ}
      {t t' r pipeline'} (hcalls : w.calls < 4294967295)
      (h : pipelineProcess (loggedProvider P) w.pipeline samples metrics send t =
        (r, pipeline', t')) :
      Step F P Q w { w with
        pipeline := pipeline'
        calls := w.calls + 1
        encoded := w.encoded ++ encodedBy (pipelineEncode w.pipeline samples metrics).1 }
  | accept {w : World D σ ρ} {packet} {out out' : DecodeTarget F D} {result receiver'}
      (h : receiverAccept (loggedProvider Q) w.receiver packet out = (result, receiver', out'))
      (ideal : IdealOpen w.pipeline.security.2.sealed w.receiver.security.2.opened
        receiver'.security.2.opened) :
      Step F P Q w { w with
        receiver := receiver'
        completed := w.completed ++ completedBy result receiver' }

inductive World.Reachable (F : Type) [CFloat F D] (P : SecurityProvider σ)
    (Q : SecurityProvider ρ) (config : AdaptiveConfig D) (client : σ) (server : ρ) :
    World D σ ρ → Prop where
  | init {pipeline}
      (h : pipelineInit (loggedProvider P) config (client, ⟨[], []⟩) = .ok pipeline) :
      Reachable F P Q config client server
        ⟨pipeline, receiverInit (server, ⟨[], []⟩), 0, [], []⟩
  | next {w w'} (hreach : Reachable F P Q config client server w) (h : World.Step F P Q w w') :
      Reachable F P Q config client server w'

/-! ## The sender -/

/-- What was sealed are blocks of planned windows, no two of them alike; the windows have
different ids. -/
structure SenderInvariant (overhead : ℕ) (w : World D σ ρ) (plans : List TransferPlan) :
    Prop where
  calls_le : w.calls ≤ 4294967295
  ids : ∃ m ≤ w.calls, w.pipeline.nextWindowId = UInt32.ofNat (m + 1) ∧
    ∀ window ∈ w.encoded, window.windowId.toNat ≤ m
  encoded_nodup : (w.encoded.map (·.windowId)).Nodup
  planned : ∀ plan ∈ plans, plan.Bounded overhead ∧ ∃ window ∈ w.encoded,
    plan.windowId = window.windowId ∧ plan.representation = window.representation
  plans_nodup : (plans.map (·.windowId)).Nodup
  blocks : ∀ entry ∈ w.pipeline.security.2.sealed, ∃ plan ∈ plans, ∃ i < plan.blockCount,
    entry.plaintext = plan.slice i ∧ entry.aad = plan.aad i
  aads_nodup : (w.pipeline.security.2.sealed.map (·.aad)).Nodup

theorem nodup_map_concat {α β : Type} {f : α → β} {xs : List α} {x : α} (h : (xs.map f).Nodup)
    (hx : ∀ y ∈ xs, f y ≠ f x) : ((xs ++ [x]).map f).Nodup := by
  rw [List.map_append, List.nodup_append]
  refine ⟨h, List.nodup_singleton _, ?_⟩
  intro a ha b hb
  obtain ⟨y, hy, rfl⟩ := List.mem_map.mp ha
  rw [List.map_singleton, List.mem_singleton] at hb
  rw [hb]
  exact hx y hy

section Sender

variable {P : SecurityProvider σ} {w : World D σ ρ} {plans : List TransferPlan}
  {pipeline' : Pipeline D (σ × SessionLog)} {samples : List F} {metrics : NetworkMetrics D}

omit [CDouble D] in
theorem SenderInvariant.nextWindowId_fresh {overhead : ℕ} (h : SenderInvariant overhead w plans)
    (hcalls : w.calls < 4294967295) :
    ∀ window ∈ w.encoded, window.windowId ≠ w.pipeline.nextWindowId := by
  obtain ⟨m, hm, hnext, hids⟩ := h.ids
  intro window hwindow hsame
  have hle := hids window hwindow
  rw [hsame, hnext, UInt32.toNat_ofNat'] at hle
  omega

theorem SenderInvariant.encoded_next {overhead : ℕ} (h : SenderInvariant overhead w plans)
    (hcalls : w.calls < 4294967295)
    (hnext : pipeline'.nextWindowId = (pipelineEncode w.pipeline samples metrics).2.nextWindowId) :
    (∃ m ≤ w.calls + 1, pipeline'.nextWindowId = UInt32.ofNat (m + 1) ∧
      ∀ window ∈ w.encoded ++ encodedBy (pipelineEncode w.pipeline samples metrics).1,
        window.windowId.toNat ≤ m) ∧
    ((w.encoded ++ encodedBy (pipelineEncode w.pipeline samples metrics).1).map
      (·.windowId)).Nodup := by
  obtain ⟨m, hm, hid, hids⟩ := h.ids
  have hadvance : w.pipeline.nextWindowId + 1 = UInt32.ofNat (m + 1 + 1) := by
    rw [hid, UInt32.ofNat_add (m + 1)]
    rfl
  cases hencode : pipelineEncode w.pipeline samples metrics with
  | mk r encoded =>
    rw [hencode] at hnext
    cases r with
    | error e =>
      obtain ⟨-, -, -, hkept⟩ := pipelineEncode_keeps hencode
      simp only [encodedBy, List.append_nil] at hnext ⊢
      refine ⟨?_, h.encoded_nodup⟩
      rcases hkept with hkept | hkept
      · exact ⟨m, by omega, by rw [hnext, hkept, hid], hids⟩
      · refine ⟨m + 1, by omega, by rw [hnext, hkept, hadvance], ?_⟩
        intro window hwindow
        exact (hids window hwindow).trans (Nat.le_succ m)
    | ok window =>
      obtain ⟨hwindow, hkept, -⟩ := pipelineEncode_eq_ok hencode
      simp only [encodedBy] at hnext ⊢
      refine ⟨⟨m + 1, by omega, by rw [hnext, hkept, hadvance], ?_⟩, ?_⟩
      · intro other hother
        rcases List.mem_append.mp hother with hother | hother
        · exact (hids other hother).trans (Nat.le_succ m)
        · rw [List.mem_singleton.mp hother, hwindow, hid, UInt32.toNat_ofNat']
          omega
      · apply nodup_map_concat h.encoded_nodup
        intro other hother
        rw [hwindow]
        exact h.nextWindowId_fresh hcalls other hother

/-- One call keeps the invariant; it adds at most one plan, and entries to the log. -/
theorem SenderInvariant.process {τ : Type} {send : TransportSend τ} {t t' : τ}
    {r : Outcome (PipelineStats D)} (hw : SenderInvariant P.overhead w plans)
    (hcalls : w.calls < 4294967295)
    (h : pipelineProcess (loggedProvider P) w.pipeline samples metrics send t =
      (r, pipeline', t')) :
    ∃ added entries, pipeline'.security.2.sealed = w.pipeline.security.2.sealed ++ entries ∧
      SenderInvariant P.overhead { w with
        pipeline := pipeline'
        calls := w.calls + 1
        encoded := w.encoded ++ encodedBy (pipelineEncode w.pipeline samples metrics).1 }
        (plans ++ added) := by
  obtain ⟨hids, hnodup⟩ := hw.encoded_next hcalls (pipelineProcess_nextWindowId h)
  have hplanned : ∀ plan ∈ plans, plan.Bounded P.overhead ∧
      ∃ window ∈ w.encoded ++ encodedBy (pipelineEncode w.pipeline samples metrics).1,
        plan.windowId = window.windowId ∧ plan.representation = window.representation := by
    intro plan hplan
    obtain ⟨hbounded, window, hwindow, hsame⟩ := hw.planned plan hplan
    exact ⟨hbounded, window, List.mem_append_left _ hwindow, hsame⟩
  rcases (pipelineProcess_cases h).2 with ⟨-, hsecurity, -, -⟩ | ⟨window, plan, result, s',
    hplan, hloop, hsecurity, -, -, -⟩
  · refine ⟨[], [], by rw [hsecurity, List.append_nil], hcalls, hids, hnodup, ?_, ?_, ?_, ?_⟩
    · rw [List.append_nil]
      exact hplanned
    · rw [List.append_nil]
      exact hw.plans_nodup
    · rw [List.append_nil]
      simp only [hsecurity]
      exact hw.blocks
    · simp only [hsecurity]
      exact hw.aads_nodup
  · obtain ⟨hbounded, hrep, hid, -⟩ := hplan.bounded
    obtain ⟨entries, hlog, hlength, hblocks⟩ := sendBlocks_logged (by simp [TransferState.At]) hloop
    have hsealed : pipeline'.security.2.sealed = w.pipeline.security.2.sealed ++ entries := by
      rw [hsecurity, hlog]
    have hencoded : window ∈ encodedBy (pipelineEncode w.pipeline samples metrics).1 := by
      rw [hplan.encoded]
      exact List.mem_singleton_self window
    have hfresh : ∀ old ∈ plans, old.windowId ≠ plan.windowId := by
      intro old hold hsame
      obtain ⟨-, other, hother, hsame', -⟩ := hw.planned old hold
      rw [hsame, hid, hplan.windowId] at hsame'
      exact hw.nextWindowId_fresh hcalls other hother hsame'.symm
    refine ⟨[plan], entries, hsealed, hcalls, hids, hnodup, ?_, ?_, ?_, ?_⟩
    · intro other hother
      rcases List.mem_append.mp hother with hother | hother
      · exact hplanned other hother
      · rw [List.mem_singleton.mp hother]
        exact ⟨hbounded, window, List.mem_append_right _ hencoded, hid, hrep⟩
    · exact nodup_map_concat hw.plans_nodup hfresh
    · simp only [hsealed]
      intro entry hentry
      rcases List.mem_append.mp hentry with hentry | hentry
      · obtain ⟨old, hold, hblock⟩ := hw.blocks entry hentry
        exact ⟨old, List.mem_append_left _ hold, hblock⟩
      · obtain ⟨k, -, hk, hblock⟩ := hblocks.mem hentry
        exact ⟨plan, List.mem_append_right _ (List.mem_singleton_self plan), k, by omega, hblock⟩
    · simp only [hsealed]
      rw [List.map_append, List.nodup_append]
      refine ⟨hw.aads_nodup, hblocks.nodup hbounded (by omega), ?_⟩
      intro aad hmem aad' hmem' hsame
      obtain ⟨entry, hentry, rfl⟩ := List.mem_map.mp hmem
      obtain ⟨entry', hentry', rfl⟩ := List.mem_map.mp hmem'
      obtain ⟨old, hold, i, -, -, haad⟩ := hw.blocks entry hentry
      obtain ⟨k, -, -, -, haad'⟩ := hblocks.mem hentry'
      rw [haad, haad'] at hsame
      exact hfresh old hold (TransferPlan.aad_inj hsame).1

end Sender

/-! ## The receiver -/

/-- The receiver is at the start of a window, or holds the first blocks of a planned one. -/
def Receiver.Assembled (receiver : Receiver ρ) (plans : List TransferPlan) : Prop :=
  receiver.nextBlock = 0 ∧ receiver.representation = [] ∨
    ∃ plan ∈ plans, ∃ i ≤ plan.blockCount, receiver.nextBlock = UInt32.ofNat i ∧
      receiver.token = writeU32Be plan.windowId ∧ receiver.representation = plan.sentUpTo i

/-- What was opened was sealed; what was completed are whole planned windows, each after
its last block was opened. -/
structure ReceiverInvariant (plans : List TransferPlan) (sealed : List Sealed)
    (receiver : Receiver (ρ × SessionLog)) (completed : List (Bytes × Bytes)) : Prop where
  opened : ∀ entry ∈ receiver.security.2.opened, entry ∈ sealed
  assembled : receiver.Assembled plans
  whole : ∀ c ∈ completed, ∃ plan ∈ plans, c = (writeU32Be plan.windowId, plan.representation) ∧
    ∃ entry ∈ receiver.security.2.opened, entry.aad = plan.aad (plan.blockCount - 1)
  tokens_nodup : (completed.map (·.1)).Nodup

section Receiver

variable {Q : SecurityProvider ρ} {w : World D σ ρ} {plans : List TransferPlan}

omit [CDouble D] in
theorem Receiver.Assembled.mono {receiver : Receiver ρ} {added : List TransferPlan}
    (h : receiver.Assembled plans) : receiver.Assembled (plans ++ added) := by
  rcases h with hstart | ⟨plan, hplan, hheld⟩
  · exact Or.inl hstart
  · exact Or.inr ⟨plan, List.mem_append_left _ hplan, hheld⟩

theorem ReceiverInvariant.mono {sealed : List Sealed} {receiver : Receiver (ρ × SessionLog)}
    {completed : List (Bytes × Bytes)} (h : ReceiverInvariant plans sealed receiver completed)
    (added : List TransferPlan) (entries : List Sealed) :
    ReceiverInvariant (plans ++ added) (sealed ++ entries) receiver completed := by
  refine ⟨?_, h.assembled.mono, ?_, h.tokens_nodup⟩
  · intro entry hentry
    exact List.mem_append_left _ (h.opened entry hentry)
  · intro c hc
    obtain ⟨plan, hplan, hwhole⟩ := h.whole c hc
    exact ⟨plan, List.mem_append_left _ hplan, hwhole⟩

theorem Receiver.Assembled.restart {receiver : Receiver ρ} (h : receiver.Assembled plans)
    (block : CoapBlock) : (receiver.restart block).Assembled plans := by
  by_cases hzero : block.blockNumber = 0
  · rw [restart_of_zero hzero]
    exact Or.inl ⟨rfl, rfl⟩
  · rw [restart_of_ne hzero]
    exact h

omit [CDouble D] in
/-- An expected block whose record was sealed is the next block of the window at hand,
and completes what is held to the next slice. -/
theorem SenderInvariant.opened_block {overhead : ℕ} {receiver : Receiver (ρ × SessionLog)}
    {packet : Bytes} {block : CoapBlock} {plaintext record : Bytes}
    (hw : SenderInvariant overhead w plans) (h : receiver.Assembled plans)
    (hparse : coapParseBlock1 packet = .ok block)
    (hexpects : (receiver.restart block).expects block = true)
    (hsealed : ⟨plaintext, pipelineBuildAad block, record⟩ ∈ w.pipeline.security.2.sealed) :
    ∃ plan ∈ plans, ∃ i < plan.blockCount, pipelineBuildAad block = plan.aad i ∧
      (block.more = 0 ↔ ¬i + 1 < plan.blockCount) ∧
      (receiver.restart block).nextBlock + 1 = UInt32.ofNat (i + 1) ∧
      (receiver.restart block).token = writeU32Be plan.windowId ∧
      (receiver.restart block).representation ++ plaintext = plan.sentUpTo (i + 1) := by
  obtain ⟨plan, hplan, i, hi, hplaintext, haad⟩ := hw.blocks _ hsealed
  obtain ⟨hbounded, -⟩ := hw.planned plan hplan
  obtain ⟨hnumber, htoken, hmore⟩ :=
    TransferPlan.fields_of_aad (token_length_le_of_parse hparse) haad
  obtain ⟨-, hnext, hsame⟩ := Receiver.expects_iff.mp hexpects
  have hheld : (receiver.restart block).representation = plan.sentUpTo i := by
    by_cases hzero : block.blockNumber = 0
    · rw [hzero] at hnumber
      have hfirst : i = 0 := (hbounded.ofNat_inj hi.le (Nat.zero_le _)).mp hnumber.symm
      rw [Receiver.restart_of_zero hzero, hfirst]
      exact (receiver.holds_begin plan).representation
    · rw [Receiver.restart_of_ne hzero] at hnext hsame ⊢
      rcases h with ⟨hstart, -⟩ | ⟨plan', hplan', i', hi', hnext', htoken', hrep⟩
      · exact absurd (hnext.trans hstart) hzero
      -- the token tells the window, the block number how much of it is held
      · have hid : plan.windowId = plan'.windowId := by
          apply writeU32Be_inj
          rw [← htoken, hsame, htoken']
        have hone : plan = plan' := List.inj_on_of_nodup_map hw.plans_nodup hplan hplan' hid
        subst hone
        have hposition : i = i' := by
          apply (hbounded.ofNat_inj hi.le hi').mp
          rw [← hnumber, hnext, hnext']
        rw [hrep, hposition]
  have hstep : (receiver.restart block).nextBlock + 1 = UInt32.ofNat (i + 1) := by
    rw [← hnext, hnumber, UInt32.ofNat_add]
    rfl
  refine ⟨plan, hplan, i, hi, haad, hmore, hstep, by rw [← hsame, htoken], ?_⟩
  change plaintext = plan.slice i at hplaintext
  rw [hheld, hplaintext, plan.sentUpTo_succ]

section Accept

variable {overhead : ℕ} {packet : Bytes} {out out' : DecodeTarget F D}
  {result : Outcome Accepted} {receiver' : Receiver (ρ × SessionLog)} {block : CoapBlock}
  {plaintext : Bytes} {security : ρ × SessionLog}

omit [CDouble D] [CFloat F D] in
/-- An opened record is logged under the associated data of its block. -/
theorem opened_of_ok {c : ρ × SessionLog} {sealed : List Sealed}
    (hopen : securityOpen (loggedProvider Q) c block.payloadPointer (pipelineBuildAad block)
      maxBlockSize = (.ok plaintext, security))
    (ideal : IdealOpen sealed c.2.opened security.2.opened) :
    ∃ record, security.2.opened = c.2.opened ++ [⟨plaintext, pipelineBuildAad block, record⟩] ∧
      ⟨plaintext, pipelineBuildAad block, record⟩ ∈ sealed ∧
      ∀ earlier ∈ c.2.opened, recordSequence earlier.record < recordSequence record := by
  obtain ⟨record, -, hlog⟩ := loggedOpen_ok hopen
  have hopened : security.2.opened =
      c.2.opened ++ [⟨plaintext, pipelineBuildAad block, record⟩] := by rw [hlog]
  obtain ⟨hsealed, habove⟩ := ideal _ hopened
  exact ⟨record, hopened, hsealed, habove⟩

/-- The log of opened records grows by sealed ones. -/
theorem ReceiverInvariant.advance {sealed : List Sealed} {receiver : Receiver (ρ × SessionLog)}
    {completed : List (Bytes × Bytes)} (h : ReceiverInvariant plans sealed receiver completed)
    (entries : List Sealed)
    (hlog : receiver'.security.2.opened = receiver.security.2.opened ++ entries)
    (hentries : ∀ entry ∈ entries, entry ∈ sealed) (hassembled : receiver'.Assembled plans) :
    ReceiverInvariant plans sealed receiver' completed := by
  refine ⟨?_, hassembled, ?_, h.tokens_nodup⟩
  · intro entry hentry
    rw [hlog] at hentry
    rcases List.mem_append.mp hentry with hentry | hentry
    · exact h.opened entry hentry
    · exact hentries entry hentry
  · intro c hc
    obtain ⟨plan, hplan, hwhole, entry, hentry, haad⟩ := h.whole c hc
    refine ⟨plan, hplan, hwhole, entry, ?_, haad⟩
    rw [hlog]
    exact List.mem_append_left _ hentry

/-- The last block of a window is opened once: no other record was sealed under its
associated data, and the number of this one is not above itself. -/
theorem ReceiverInvariant.complete {sealed : List Sealed} {receiver : Receiver (ρ × SessionLog)}
    {completed : List (Bytes × Bytes)} {plan : TransferPlan} {entry : Sealed}
    (h : ReceiverInvariant plans sealed receiver completed)
    (haads : (sealed.map (·.aad)).Nodup)
    (hlog : receiver'.security.2.opened = receiver.security.2.opened ++ [entry])
    (hentry : entry ∈ sealed) (hassembled : receiver'.Assembled plans)
    (habove : ∀ earlier ∈ receiver.security.2.opened,
      recordSequence earlier.record < recordSequence entry.record)
    (hplan : plan ∈ plans) (haad : entry.aad = plan.aad (plan.blockCount - 1))
    (hinj : ∀ other ∈ plans, other.windowId = plan.windowId → other = plan) :
    ReceiverInvariant plans sealed receiver'
      (completed ++ [(writeU32Be plan.windowId, plan.representation)]) := by
  have hstep := h.advance [entry] hlog (by simpa using hentry) hassembled
  refine ⟨hstep.opened, hstep.assembled, ?_, ?_⟩
  · intro c hc
    rcases List.mem_append.mp hc with hc | hc
    · exact hstep.whole c hc
    · refine ⟨plan, hplan, List.mem_singleton.mp hc, entry, ?_, haad⟩
      rw [hlog]
      exact List.mem_append_right _ (List.mem_singleton_self entry)
  · apply nodup_map_concat h.tokens_nodup
    intro c hc hsame
    obtain ⟨other, hother, rfl, earlier, hearlier, haad'⟩ := h.whole c hc
    obtain rfl := hinj other hother (writeU32Be_inj hsame)
    obtain rfl := List.inj_on_of_nodup_map haads (h.opened earlier hearlier) hentry
      (haad'.trans haad.symm)
    exact absurd (habove earlier hearlier) (UInt64.lt_irrefl _)

theorem ReceiverInvariant.accept
    (h : ReceiverInvariant plans w.pipeline.security.2.sealed w.receiver w.completed)
    (hw : SenderInvariant overhead w plans)
    (hcall : receiverAccept (loggedProvider Q) w.receiver packet out = (result, receiver', out'))
    (ideal : IdealOpen w.pipeline.security.2.sealed w.receiver.security.2.opened
      receiver'.security.2.opened) :
    ReceiverInvariant plans w.pipeline.security.2.sealed receiver'
      (w.completed ++ completedBy result receiver') := by
  have haccepts := receiverAccept_accepts (loggedProvider Q) w.receiver packet out
  rw [hcall] at haccepts
  cases haccepts with
  | malformed hparse =>
    rw [completedBy_error, List.append_nil]
    exact h
  | unexpected hparse hexpects =>
    rw [fail, completedBy_error, List.append_nil]
    exact h.advance [] (by simp) (by simp) (h.assembled.restart _)
  | unopened hparse hexpects hopen =>
    rw [completedBy_error, List.append_nil]
    refine h.advance [] ?_ (by simp) (h.assembled.restart _)
    rw [List.append_nil, loggedOpen_error hopen]
  | overflow hparse hexpects hopen hfull =>
    obtain ⟨record, hopened, hsealed, -⟩ := opened_of_ok hopen ideal
    rw [completedBy_error, List.append_nil]
    exact h.advance _ hopened (by simpa using hsealed) (h.assembled.restart _)
  | stored hparse hexpects hopen hroom hmore =>
    obtain ⟨record, hopened, hsealed, -⟩ := opened_of_ok hopen ideal
    obtain ⟨plan, hplan, i, hi, -, -, hnext, htoken, hrep⟩ :=
      hw.opened_block h.assembled hparse hexpects hsealed
    rw [completedBy_stored, List.append_nil]
    exact h.advance _ hopened (by simpa using hsealed)
      (Or.inr ⟨plan, hplan, i + 1, hi, hnext, htoken, hrep⟩)
  | undecoded hparse hexpects hopen hroom hlast hdecode =>
    obtain ⟨record, hopened, hsealed, -⟩ := opened_of_ok hopen ideal
    obtain ⟨plan, hplan, i, hi, -, -, hnext, htoken, hrep⟩ :=
      hw.opened_block h.assembled hparse hexpects hsealed
    rw [completedBy_error, List.append_nil]
    exact h.advance _ hopened (by simpa using hsealed)
      (Or.inr ⟨plan, hplan, i + 1, hi, hnext, htoken, hrep⟩)
  | @complete block plaintext security _ hparse hexpects hopen hroom hlast hdecode =>
    obtain ⟨record, hopened, hsealed, habove⟩ := opened_of_ok hopen ideal
    obtain ⟨plan, hplan, i, hi, haad, hmore, hnext, htoken, hrep⟩ :=
      hw.opened_block h.assembled hparse hexpects hsealed
    have hend : i + 1 = plan.blockCount := by
      have hnot := hmore.mp hlast
      omega
    have hwhole : plan.sentUpTo (i + 1) = plan.representation := by
      rw [hend]
      exact (hw.planned plan hplan).1.sentUpTo_blockCount
    have hlast' : i = plan.blockCount - 1 := by omega
    rw [hlast'] at haad
    have hdecoded : completedBy (.ok .complete)
        { (w.receiver.restart block).store security plaintext with active := false } =
          [(writeU32Be plan.windowId, plan.representation)] := by
      rw [← htoken, ← hwhole, ← hrep]
      rfl
    rw [hdecoded]
    exact h.complete hw.aads_nodup hopened hsealed
      (Or.inr ⟨plan, hplan, i + 1, hi, hnext, htoken, hrep⟩) habove hplan haad
      (fun other hother hid => List.inj_on_of_nodup_map hw.plans_nodup hother hplan hid)

end Accept

end Receiver

/-! ## Runs -/

section Runs

variable {P : SecurityProvider σ} {Q : SecurityProvider ρ} {config : AdaptiveConfig D}
  {client : σ} {server : ρ} {w : World D σ ρ}

omit [CDouble D] in
/-- What the receiver holds is the start of a representation, which has at most
`ADAPTIVE_MAX_REPRESENTATION` bytes. -/
theorem ReceiverInvariant.length_le {overhead : ℕ} {plans : List TransferPlan}
    {sealed : List Sealed} {receiver : Receiver (ρ × SessionLog)} {completed : List (Bytes × Bytes)}
    (h : ReceiverInvariant plans sealed receiver completed)
    (hw : SenderInvariant overhead w plans) :
    receiver.representation.length ≤ maxRepresentation := by
  rcases h.assembled with ⟨-, hempty⟩ | ⟨plan, hplan, i, -, -, -, hheld⟩
  · rw [hempty]
    exact Nat.zero_le _
  · rw [hheld]
    exact (plan.length_sentUpTo_le i).trans (hw.planned plan hplan).1.length_le

theorem World.invariant_init {pipeline : Pipeline D (σ × SessionLog)}
    (h : pipelineInit (loggedProvider P) config (client, ⟨[], []⟩) = .ok pipeline) :
    SenderInvariant P.overhead
        (⟨pipeline, receiverInit (server, ⟨[], []⟩), 0, [], []⟩ : World D σ ρ) [] ∧
      ReceiverInvariant [] pipeline.security.2.sealed (receiverInit (server, ⟨[], []⟩)) [] := by
  rw [pipelineInit] at h
  split at h
  · exact absurd h fail_ne_ok
  · cases h
    constructor
    · exact ⟨Nat.zero_le _, ⟨0, Nat.le_refl 0, rfl, by simp⟩, by simp, by simp, by simp, by simp,
        by simp⟩
    · exact ⟨by simp [receiverInit], Or.inl ⟨rfl, rfl⟩, by simp, by simp⟩

/-- Every run keeps both ends in step. -/
theorem World.Reachable.invariant (h : World.Reachable F P Q config client server w) :
    ∃ plans, SenderInvariant P.overhead w plans ∧
      ReceiverInvariant plans w.pipeline.security.2.sealed w.receiver w.completed := by
  induction h with
  | init h => exact ⟨[], World.invariant_init h⟩
  | next hreach hstep ih =>
    obtain ⟨plans, hsender, hreceiver⟩ := ih
    cases hstep with
    | process hcalls h =>
      obtain ⟨added, entries, hsealed, hsender'⟩ := hsender.process hcalls h
      refine ⟨plans ++ added, hsender', ?_⟩
      simp only [hsealed]
      exact hreceiver.mono added entries
    | accept h ideal =>
      refine ⟨plans, ?_, hreceiver.accept hsender h ideal⟩
      exact ⟨hsender.calls_le, hsender.ids, hsender.encoded_nodup, hsender.planned,
        hsender.plans_nodup, hsender.blocks, hsender.aads_nodup⟩

/-- Reassembly integrity: what is completed are whole windows as they were encoded, each
at most once. -/
theorem World.Reachable.completed_encoded (h : World.Reachable F P Q config client server w) :
    w.receiver.representation.length ≤ maxRepresentation ∧
      (∀ c ∈ w.completed, ∃ window ∈ w.encoded,
        c = (writeU32Be window.windowId, window.representation)) ∧
      (w.completed.map (·.1)).Nodup ∧ (w.encoded.map (·.windowId)).Nodup := by
  obtain ⟨plans, hsender, hreceiver⟩ := h.invariant
  refine ⟨hreceiver.length_le hsender, ?_, hreceiver.tokens_nodup, hsender.encoded_nodup⟩
  intro c hc
  obtain ⟨plan, hplan, rfl, -⟩ := hreceiver.whole c hc
  obtain ⟨-, window, hwindow, hid, hrep⟩ := hsender.planned plan hplan
  exact ⟨window, hwindow, by rw [hid, hrep]⟩

end Runs

section Sample

/-- A pipeline with blocks of 64 bytes and its peer, before any call. -/
def startWorld : World ℚ TestContext TestContext where
  pipeline := { initialPipeline twoBlocks with security := ((securityTestPair 7).1, ⟨[], []⟩) }
  receiver := receiverInit ((securityTestPair 7).2, ⟨[], []⟩)
  calls := 0
  encoded := []
  completed := []

def World.send (w : World ℚ TestContext TestContext) (samples : List Single) :
    World ℚ TestContext TestContext :=
  { w with
    pipeline := (pipelineProcess (loggedProvider testProvider) w.pipeline samples (fun _ => 1)
      (fun t _ => (.ok, t)) ()).2.1
    calls := w.calls + 1
    encoded := w.encoded ++ encodedBy (pipelineEncode w.pipeline samples (fun _ => 1)).1 }

def World.deliver (w : World ℚ TestContext TestContext) (packet : Bytes) :
    World ℚ TestContext TestContext :=
  { w with
    receiver := (receiverAccept (loggedProvider testProvider) w.receiver packet smallTarget).2.1
    completed := w.completed ++
      completedBy (receiverAccept (loggedProvider testProvider) w.receiver packet smallTarget).1
        (receiverAccept (loggedProvider testProvider) w.receiver packet smallTarget).2.1 }

/-- What a delivery opens is ideal. -/
def World.DeliversIdeally (w : World ℚ TestContext TestContext) (packet : Bytes) : Prop :=
  IdealOpen w.pipeline.security.2.sealed w.receiver.security.2.opened
    (w.deliver packet).receiver.security.2.opened

instance (w : World ℚ TestContext TestContext) (packet : Bytes) :
    Decidable (w.DeliversIdeally packet) :=
  inferInstanceAs (Decidable (IdealOpen _ _ _))

section Steps

variable {config : AdaptiveConfig ℚ} {client server : TestContext}
  {w : World ℚ TestContext TestContext}

theorem World.Reachable.send
    (h : World.Reachable Single testProvider testProvider config client server w)
    (hcalls : w.calls < 4294967295) (samples : List Single) :
    World.Reachable Single testProvider testProvider config client server (w.send samples) :=
  h.next (.process hcalls rfl)

theorem World.Reachable.deliver
    (h : World.Reachable Single testProvider testProvider config client server w) (packet : Bytes)
    (ideal : w.DeliversIdeally packet) :
    World.Reachable Single testProvider testProvider config client server (w.deliver packet) :=
  h.next (.accept rfl ideal)

end Steps

def sentWorld : World ℚ TestContext TestContext := startWorld.send smallWindow

/-- The blocks of the window delivered in order, and copies of both behind them. -/
def deliveredWorld : World ℚ TestContext TestContext :=
  (((sentWorld.deliver firstPacket).deliver secondPacket).deliver secondPacket).deliver firstPacket

/-- The run, checked as a whole: every delivery is ideal, and one window is completed. -/
theorem delivered_ideally :
    sentWorld.DeliversIdeally firstPacket ∧
      (sentWorld.deliver firstPacket).DeliversIdeally secondPacket ∧
      ((sentWorld.deliver firstPacket).deliver secondPacket).DeliversIdeally secondPacket ∧
      (((sentWorld.deliver firstPacket).deliver secondPacket).deliver
        secondPacket).DeliversIdeally firstPacket ∧
      deliveredWorld.completed.length = 1 := by
  decide +kernel

theorem World.reachable_delivered : World.Reachable Single testProvider testProvider twoBlocks
    (securityTestPair 7).1 (securityTestPair 7).2 deliveredWorld := by
  have hstart : World.Reachable Single testProvider testProvider twoBlocks
      (securityTestPair 7).1 (securityTestPair 7).2 startWorld := .init rfl
  have hsent : World.Reachable Single testProvider testProvider twoBlocks
      (securityTestPair 7).1 (securityTestPair 7).2 sentWorld := hstart.send (by decide) smallWindow
  obtain ⟨hfirst, hsecond, hsecond', hfirst', -⟩ := delivered_ideally
  have hdelivered := (hsent.deliver firstPacket hfirst).deliver secondPacket hsecond
  exact (hdelivered.deliver secondPacket hsecond').deliver firstPacket hfirst'

theorem World.Reachable.completed_encoded_delivered :
    deliveredWorld.completed.length = 1 ∧
      deliveredWorld.receiver.representation.length ≤ maxRepresentation ∧
      (∀ c ∈ deliveredWorld.completed, ∃ window ∈ deliveredWorld.encoded,
        c = (writeU32Be window.windowId, window.representation)) ∧
      (deliveredWorld.completed.map (·.1)).Nodup ∧
      (deliveredWorld.encoded.map (·.windowId)).Nodup :=
  ⟨delivered_ideally.2.2.2.2, World.reachable_delivered.completed_encoded⟩

end Sample

end AdaptiveLowpan
