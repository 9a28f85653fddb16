import AdaptiveLowpan.AadBinding
import AdaptiveLowpan.RecordLayer
import AdaptiveLowpan.Reception

/-! # What a session has sealed and opened

A logged provider behaves like the provider below it and keeps every record that it has
sealed or opened. Sending a window adds its blocks to the log in order, up to the block
at which the call stops. -/

namespace AdaptiveLowpan
open ByteWords CheckedMemory

structure SessionLog where
  sealed : List Sealed
  opened : List Sealed

variable {σ τ : Type}

/-- A provider that also keeps what it has sealed and opened. -/
def loggedProvider (P : SecurityProvider σ) : SecurityProvider (σ × SessionLog) where
  sealFn c plaintext aad capacity :=
    match P.sealFn c.1 plaintext aad capacity with
    | (.error e, c') => (.error e, c', c.2)
    | (.ok record, c') =>
      (.ok record, c', { c.2 with sealed := c.2.sealed ++ [⟨plaintext, aad, record⟩] })
  openFn c record aad capacity :=
    match P.openFn c.1 record aad capacity with
    | (.error e, c') => (.error e, c', c.2)
    | (.ok plaintext, c') =>
      (.ok plaintext, c', { c.2 with opened := c.2.opened ++ [⟨plaintext, aad, record⟩] })
  overhead := P.overhead

section Log

variable {P : SecurityProvider σ} {c c' : σ × SessionLog} {plaintext aad record : Bytes}
  {capacity : ℕ}

theorem loggedSeal_error {e : Stop Failure}
    (h : (loggedProvider P).sealFn c plaintext aad capacity = (.error e, c')) : c'.2 = c.2 := by
  rw [loggedProvider] at h
  simp only at h
  split at h
  · cases h
    rfl
  · cases h

theorem loggedSeal_ok
    (h : (loggedProvider P).sealFn c plaintext aad capacity = (.ok record, c')) :
    c'.2 = { c.2 with sealed := c.2.sealed ++ [⟨plaintext, aad, record⟩] } := by
  rw [loggedProvider] at h
  simp only at h
  split at h
  · cases h
  · cases h
    rfl

theorem loggedOpen_error {pointer : Option Bytes} {e : Stop Failure}
    (h : securityOpen (loggedProvider P) c pointer aad capacity = (.error e, c')) :
    c'.2 = c.2 := by
  cases pointer with
  | none =>
    cases h
    rfl
  | some record =>
    change (loggedProvider P).openFn c record aad capacity = _ at h
    rw [loggedProvider] at h
    simp only at h
    split at h
    · cases h
      rfl
    · cases h

theorem loggedOpen_ok {pointer : Option Bytes}
    (h : securityOpen (loggedProvider P) c pointer aad capacity = (.ok plaintext, c')) :
    ∃ record, pointer = some record ∧
      c'.2 = { c.2 with opened := c.2.opened ++ [⟨plaintext, aad, record⟩] } := by
  cases pointer with
  | none =>
    have hresult := congrArg Prod.fst h
    exact absurd hresult fail_ne_ok
  | some record =>
    change (loggedProvider P).openFn c record aad capacity = _ at h
    rw [loggedProvider] at h
    simp only at h
    split at h
    · cases h
    · cases h
      exact ⟨record, rfl, rfl⟩

end Log

/-! ## The associated data of blocks -/

/-- The associated data of a block tells its window and its number. -/
theorem TransferPlan.aad_inj {plan plan' : TransferPlan} {i j : ℕ} (h : plan.aad i = plan'.aad j) :
    plan.windowId = plan'.windowId ∧ UInt32.ofNat i = UInt32.ofNat j := by
  have hfields := (pipelineBuildAad_eq_iff (a := plan.block 0 i) (b := plan'.block 0 j)
    (by decide : 4 ≤ 8) (by decide : 4 ≤ 8)).mp h
  exact ⟨writeU32Be_inj hfields.tokenHead, hfields.blockNumber⟩

/-- A received block with the associated data of a sent one has its number, token and
more flag. -/
theorem TransferPlan.fields_of_aad {plan : TransferPlan} {i : ℕ} {block : CoapBlock}
    (htoken : block.token.length ≤ 8) (h : pipelineBuildAad block = plan.aad i) :
    block.blockNumber = UInt32.ofNat i ∧ block.token = writeU32Be plan.windowId ∧
      (block.more = 0 ↔ ¬i + 1 < plan.blockCount) := by
  have hfields := (pipelineBuildAad_eq_iff (b := plan.block 0 i) htoken
    (by decide : 4 ≤ 8)).mp h
  have hlength : block.token.length = 4 := hfields.tokenLength
  have hhead : block.token.take 4 = writeU32Be plan.windowId := hfields.tokenHead
  rw [List.take_of_length_le hlength.le] at hhead
  refine ⟨hfields.blockNumber, hhead, ?_⟩
  rw [hfields.more]
  change (if i + 1 < plan.blockCount then (1 : UInt8) else 0) = 0 ↔ _
  by_cases hmore : i + 1 < plan.blockCount
  · rw [if_pos hmore]
    exact ⟨fun h1 => absurd h1 (by decide), fun hnot => absurd hmore hnot⟩
  · rw [if_neg hmore]
    exact ⟨fun _ => hmore, fun _ => rfl⟩

/-! ## The blocks of a call -/

inductive SealedBlocks (plan : TransferPlan) : ℕ → List Sealed → Prop where
  | nil {i} : SealedBlocks plan i []
  | cons {i record entries} (tail : SealedBlocks plan (i + 1) entries) :
      SealedBlocks plan i (⟨plan.slice i, plan.aad i, record⟩ :: entries)

theorem SealedBlocks.mem {plan : TransferPlan} {i : ℕ} {entries : List Sealed}
    (h : SealedBlocks plan i entries) {entry : Sealed} (hmem : entry ∈ entries) :
    ∃ k, i ≤ k ∧ k < i + entries.length ∧ entry.plaintext = plan.slice k ∧
      entry.aad = plan.aad k := by
  induction h with
  | nil => cases hmem
  | @cons i record entries tail ih =>
    rcases List.mem_cons.mp hmem with rfl | hmem
    · exact ⟨i, Nat.le_refl i, by rw [List.length_cons]; omega, rfl, rfl⟩
    · obtain ⟨k, hlow, hhigh, hplaintext, haad⟩ := ih hmem
      exact ⟨k, by omega, by rw [List.length_cons]; omega, hplaintext, haad⟩

theorem SealedBlocks.nodup {overhead : ℕ} {plan : TransferPlan} (hplan : plan.Bounded overhead)
    {i : ℕ} {entries : List Sealed} (h : SealedBlocks plan i entries)
    (hcount : i + entries.length ≤ plan.blockCount) : (entries.map (·.aad)).Nodup := by
  induction h with
  | nil => exact List.nodup_nil
  | @cons i record entries tail ih =>
    rw [List.length_cons] at hcount
    rw [List.map_cons, List.nodup_cons]
    refine ⟨?_, ih (by omega)⟩
    intro hmem
    obtain ⟨entry, hentry, haad⟩ := List.mem_map.mp hmem
    obtain ⟨k, hlow, hhigh, -, hk⟩ := tail.mem hentry
    rw [hk] at haad
    have hsame := (hplan.ofNat_inj (by omega) (by omega)).mp (TransferPlan.aad_inj haad).2
    omega

theorem sendBlocks_logged {P : SecurityProvider σ} {send : TransportSend τ} {plan : TransferPlan}
    {count i : ℕ} {s s' : TransferState (σ × SessionLog) τ} {r : Outcome Unit}
    (hat : s.At plan i) (h : sendBlocks (loggedProvider P) send plan count i s = (r, s')) :
    ∃ entries, s'.security.2 =
        { s.security.2 with sealed := s.security.2.sealed ++ entries } ∧
      entries.length ≤ count ∧ SealedBlocks plan i entries := by
  induction count generalizing i s with
  | zero =>
    cases h
    exact ⟨[], by rw [List.append_nil], Nat.le_refl 0, .nil⟩
  | succ count ih =>
    rw [sendBlocks] at h
    split at h
    · rename_i e s₁ hturn
      cases h
      rcases sendBlock_cases hat hturn with ⟨e', hseal, -⟩ | ⟨record, hseal, -⟩
      · exact ⟨[], by rw [loggedSeal_error hseal, List.append_nil], Nat.zero_le _, .nil⟩
      · exact ⟨_, loggedSeal_ok hseal, Nat.succ_le_succ (Nat.zero_le _), .cons .nil⟩
    · rename_i s₁ hturn
      rcases sendBlock_cases hat hturn with ⟨e', -, herror⟩ | ⟨record, hseal, ⟨e', herror⟩ | hok⟩
      · cases herror
      · cases herror
      · obtain ⟨entries, hlog, hlength, hblocks⟩ := ih hok.2.1 h
        refine ⟨⟨plan.slice i, plan.aad i, record⟩ :: entries, ?_,
          by rw [List.length_cons]; omega, .cons hblocks⟩
        rw [hlog, loggedSeal_ok hseal]
        simp only [List.append_assoc, List.singleton_append]

/-! ## Keeping the log changes nothing else -/

section Unlogged

def Pipeline.unlogged {D : Type} (pipeline : Pipeline D (σ × SessionLog)) : Pipeline D σ :=
  { pipeline with security := pipeline.security.1 }

def TransferState.unlogged (s : TransferState (σ × SessionLog) τ) : TransferState σ τ :=
  { s with security := s.security.1 }

variable {P : SecurityProvider σ}

theorem securitySeal_unlogged {c c' : σ × SessionLog} {plaintext aad : Bytes} {capacity : ℕ}
    {r : Outcome Bytes} (h : securitySeal (loggedProvider P) c plaintext aad capacity = (r, c')) :
    securitySeal P c.1 plaintext aad capacity = (r, c'.1) := by
  rw [securitySeal] at h ⊢
  rw [loggedProvider] at h
  simp only at h
  rcases hseal : P.sealFn c.1 plaintext aad capacity with ⟨e | record, c₁⟩
  · rw [hseal] at h
    cases h
    rfl
  · rw [hseal] at h
    cases h
    rfl

theorem sendBlock_unlogged (send : TransportSend τ) (plan : TransferPlan) (i : ℕ)
    (s : TransferState (σ × SessionLog) τ) :
    sendBlock P send plan i s.unlogged =
      ((sendBlock (loggedProvider P) send plan i s).1,
        (sendBlock (loggedProvider P) send plan i s).2.unlogged) := by
  rcases s with ⟨⟨context, log⟩, messageId, offset, t⟩
  change sendBlock P send plan i ⟨context, messageId, offset, t⟩ = _
  rw [sendBlock, sendBlock]
  simp only
  rcases hseal : securitySeal (loggedProvider P) (context, log) _ _ maxBlockSize with
    ⟨e | record, security⟩
  · rw [securitySeal_unlogged hseal]
    rfl
  rw [securitySeal_unlogged hseal]
  simp only
  by_cases hlen : record.length > plan.blockSize ∨
      ((plan.block messageId i).more ≠ 0 ∧ record.length ≠ plan.blockSize)
  · rw [if_pos hlen, if_pos hlen]
    rfl
  rw [if_neg hlen, if_neg hlen]
  rcases coapBuildBlock1 _ plan.uriPath maxCoapPacket with e | packet
  · rfl
  simp only
  rcases (send t packet).1.toOutcome with e | ⟨⟩
  · rfl
  · rfl

theorem sendBlocks_unlogged (send : TransportSend τ) (plan : TransferPlan) (count i : ℕ)
    (s : TransferState (σ × SessionLog) τ) :
    sendBlocks P send plan count i s.unlogged =
      ((sendBlocks (loggedProvider P) send plan count i s).1,
        (sendBlocks (loggedProvider P) send plan count i s).2.unlogged) := by
  induction count generalizing i s with
  | zero => rfl
  | succ count ih =>
    rw [sendBlocks, sendBlocks, sendBlock_unlogged]
    rcases sendBlock (loggedProvider P) send plan i s with ⟨e | ⟨⟩, s₁⟩
    · rfl
    · exact ih (i + 1) s₁

variable {F D : Type} [CDouble D] [CFloat F D]

theorem pipelineEncode_unlogged (pipeline : Pipeline D (σ × SessionLog)) (samples : List F)
    (metrics : NetworkMetrics D) :
    pipelineEncode pipeline.unlogged samples metrics =
      ((pipelineEncode pipeline samples metrics).1,
        (pipelineEncode pipeline samples metrics).2.unlogged) := by
  rcases pipeline with ⟨config, normalizer, hmm, ⟨context, log⟩, windowId, messageId⟩
  change pipelineEncode ⟨config, normalizer, hmm, context, windowId, messageId⟩ samples metrics = _
  rw [pipelineEncode, pipelineEncode]
  simp only
  by_cases hsize : samples.length ≠ config.windowSize
  · rw [if_pos hsize, if_pos hsize]
    rfl
  rw [if_neg hsize, if_neg hsize]
  rcases normalizerUpdate normalizer metrics with ⟨e | normalized, normalizer'⟩
  · rfl
  simp only
  rcases codecEncode samples windowId _ config maxRepresentation with e | bytes
  · rfl
  · rfl

/-- The call over a provider is the call that also keeps what it has sealed. -/
theorem pipelineProcess_unlogged (pipeline : Pipeline D (σ × SessionLog)) (samples : List F)
    (metrics : NetworkMetrics D) (send : TransportSend τ) (t : τ) :
    pipelineProcess P pipeline.unlogged samples metrics send t =
      ((pipelineProcess (loggedProvider P) pipeline samples metrics send t).1,
        (pipelineProcess (loggedProvider P) pipeline samples metrics send t).2.1.unlogged,
        (pipelineProcess (loggedProvider P) pipeline samples metrics send t).2.2) := by
  have hoverhead : (loggedProvider P).overhead = P.overhead := rfl
  rw [pipelineProcess, pipelineProcess, pipelineEncode_unlogged, hoverhead]
  rcases pipelineEncode pipeline samples metrics with
    ⟨e | window, config, normalizer, hmm, ⟨context, log⟩, windowId, messageId⟩
  · rfl
  simp only [Pipeline.unlogged]
  rcases planTransfer P.overhead config window with e | plan
  · rfl
  simp only
  have hloop := sendBlocks_unlogged (P := P) send plan plan.blockCount 0
    ⟨(context, log), messageId, 0, t⟩
  simp only [TransferState.unlogged] at hloop
  rw [hloop]
  rcases sendBlocks (loggedProvider P) send plan plan.blockCount 0
    ⟨(context, log), messageId, 0, t⟩ with ⟨e | ⟨⟩, s⟩
  · rfl
  · rfl

end Unlogged

end AdaptiveLowpan
