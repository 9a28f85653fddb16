import AdaptiveLowpan.ExchangeIntegrity
import AdaptiveLowpan.NodeProcess

/-! # The node and the server over an arbitrary network

The node makes its requests in order, for windows with ids of their own, so the server stays
between windows or inside one. A window that the node has finished is a window that the
server has decoded. -/

namespace AdaptiveLowpan
open ByteWords CheckedMemory CFloat Slices

variable {F D σ τ : Type}

/-! ## One turn of the loop over the blocks -/

structure NodeState.At (n : NodeState σ τ) (plan : TransferPlan) (i : ℕ) : Prop where
  offset : n.representationOffset = min plan.representation.length (i * plan.plaintextCapacity)
  number : n.blockNumber = UInt32.ofNat i

theorem NodeState.at_zero (plan : TransferPlan) (security : σ) (t : τ) :
    NodeState.At ⟨security, 0, 0, t⟩ plan 0 := ⟨by simp, rfl⟩

section Turn

variable {P : SecurityProvider σ} {request : BlockingRequest τ} {plan : TransferPlan} {i : ℕ}
  {n n' : NodeState σ τ}

theorem NodeState.At.goes_on_iff (h : n.At plan i) {overhead : ℕ} (hplan : plan.Valid overhead) :
    n.representationOffset < plan.representation.length ↔ i < plan.blockCount := by
  rw [h.offset, hplan.lt_blockCount]
  omega

def TransferPlan.blockRequest (plan : TransferPlan) (i : ℕ) (record : Bytes) : ContikiRequest :=
  plan.nodeRequest (UInt32.ofNat i) (if i + 1 < plan.blockCount then 1 else 0) record

theorem isBlockRequest_of_seal {L : RecordLayer P} {key : L.Key} {record : Bytes}
    (hrecord : L.IsRecord key (plan.slice i) (plan.aad i) record)
    (hlength : record.length = (plan.slice i).length + P.overhead) :
    IsBlockRequest L key plan i (plan.blockRequest i record) := ⟨record, rfl, hrecord, hlength⟩

inductive NodeState.Turns (P : SecurityProvider σ) (request : BlockingRequest τ)
    (plan : TransferPlan) (i : ℕ) (n : NodeState σ τ) : Bool × NodeState σ τ → Prop where
  | unsealed {e security} (hseal : P.sealFn n.security (plan.slice i) (plan.aad i) maxBlockSize =
        (.error e, security)) :
      Turns P request plan i n (false, { n with security })
  | refused {record security} (hseal : P.sealFn n.security (plan.slice i) (plan.aad i)
        maxBlockSize = (.ok record, security))
      (hanswer : responseHandler (request n.transport (plan.blockRequest i record)).1 = false) :
      Turns P request plan i n (false, { n with
        security, transport := (request n.transport (plan.blockRequest i record)).2 })
  | acknowledged {record security n'} (hseal : P.sealFn n.security (plan.slice i) (plan.aad i)
        maxBlockSize = (.ok record, security))
      (hanswer : responseHandler (request n.transport (plan.blockRequest i record)).1 = true)
      (hsecurity : n'.security = security)
      (htransport : n'.transport = (request n.transport (plan.blockRequest i record)).2)
      (hat : n'.At plan (i + 1)) : Turns P request plan i n (true, n')

theorem nodeTurn_turns (hat : n.At plan i) {overhead : ℕ} (hplan : plan.Valid overhead) :
    n.Turns P request plan i (nodeTurn P request plan n) := by
  obtain ⟨security, offset, number, t⟩ := n
  obtain ⟨hoffset, rfl⟩ := hat
  have hoffset : offset = min plan.representation.length (i * plan.plaintextCapacity) := hoffset
  have hslice : _ = plan.slice i := take_min_eq_slice plan.representation hoffset
  have hnext := offset_add_min plan.plaintextCapacity hoffset
  have hmore : (if offset +
      (if plan.representation.length - offset < plan.plaintextCapacity then
        plan.representation.length - offset else plan.plaintextCapacity) <
      plan.representation.length then 1 else 0 : UInt8) =
      if i + 1 < plan.blockCount then 1 else 0 := by
    apply if_congr _ rfl rfl
    rw [hnext, hplan.lt_blockCount]
    omega
  rw [nodeTurn]
  simp only [hslice, hmore, TransferPlan.aadBlock_aad, securitySeal]
  rcases hseal : P.sealFn security (plan.slice i) (plan.aad i) maxBlockSize with
    ⟨e | record, security'⟩
  · exact .unsealed hseal
  simp only
  rw [← TransferPlan.blockRequest]
  cases hanswer : responseHandler (request t (plan.blockRequest i record)).1 with
  | false => exact .refused hseal hanswer
  | true =>
    refine .acknowledged hseal hanswer rfl rfl ⟨hnext, ?_⟩
    rw [UInt32.ofNat_add]
    rfl

/-- A turn whose seal succeeds goes on if the answer acknowledges the block. -/
theorem nodeTurn_of_seal (request : BlockingRequest τ) (hat : n.At plan i) {overhead : ℕ}
    (hplan : plan.Valid overhead) {record : Bytes} {security : σ} (hseal :
      P.sealFn n.security (plan.slice i) (plan.aad i) maxBlockSize = (.ok record, security)) :
    ∃ n', nodeTurn P request plan n =
        (responseHandler (request n.transport (plan.blockRequest i record)).1, n') ∧
      n'.security = security ∧
      n'.transport = (request n.transport (plan.blockRequest i record)).2 ∧
      if responseHandler (request n.transport (plan.blockRequest i record)).1
      then n'.At plan (i + 1)
      else n'.representationOffset = n.representationOffset := by
  have hturn : n.Turns P request plan i (nodeTurn P request plan n) := nodeTurn_turns hat hplan
  generalize nodeTurn P request plan n = r at hturn ⊢
  cases hturn with
  | unsealed hfailed =>
    rw [hseal] at hfailed
    cases hfailed
  | refused hseal' hanswer =>
    rw [hseal] at hseal'
    cases hseal'
    rw [hanswer]
    exact ⟨_, rfl, rfl, rfl, rfl⟩
  | acknowledged hseal' hanswer hsecurity htransport hnext =>
    rw [hseal] at hseal'
    cases hseal'
    rw [hanswer]
    exact ⟨_, rfl, hsecurity, htransport, hnext⟩

theorem nodeLoop_total (hat : n.At plan i) {overhead : ℕ} (hplan : plan.Valid overhead) {turns : ℕ}
    (hturns : plan.blockCount ≤ i + turns) : ∃ n', nodeLoop P request plan turns n = some n' := by
  induction turns generalizing i n with
  | zero =>
    have hdone : ¬n.representationOffset < plan.representation.length := by
      rw [hat.goes_on_iff hplan]
      omega
    exact ⟨n, if_neg hdone⟩
  | succ turns ih =>
    rw [nodeLoop]
    by_cases hgoes : n.representationOffset < plan.representation.length
    · rw [if_pos hgoes]
      have hturn : n.Turns P request plan i (nodeTurn P request plan n) := nodeTurn_turns hat hplan
      generalize nodeTurn P request plan n = r at hturn ⊢
      cases hturn with
      | unsealed hseal => exact ⟨_, rfl⟩
      | refused hseal hanswer => exact ⟨_, rfl⟩
      | acknowledged hseal hanswer hsecurity htransport hnext => exact ih hnext (by omega)
    · exact ⟨n, if_neg hgoes⟩

end Turn

/-! ## Windows -/

theorem nodePlan_eq_some {overhead : ℕ} {config : AdaptiveConfig D} {window : EncodedWindow D}
    {plan : TransferPlan} (h : nodePlan overhead config window = some plan)
    (hbuffer : window.representation.length ≤ maxRepresentation) :
    plan.Sendable overhead ∧ plan.windowId = window.windowId ∧
      plan.representation = window.representation ∧ plan.szx = config.blockSzx window.state := by
  have hsize : overhead < coapBlockSize (config.blockSzx window.state) := by
    by_contra hle
    rw [nodePlan] at h
    simp only [if_pos (Nat.le_of_not_lt hle)] at h
    cases h
  obtain ⟨plan', hplan', hnode, hszx, -⟩ := planTransfer_of_size hsize hbuffer
  rw [hnode] at h
  cases h
  obtain ⟨hvalid, hid, hrep, hstate, -⟩ := planTransfer_eq_ok hplan'
  exact ⟨⟨⟨hvalid, hrep ▸ hbuffer⟩, hszx⟩, hid, hrep, hstate⟩

section Encode

variable [CDouble D] [CFloat F D] {config : AdaptiveConfig D} {node node' : NodeProcess D σ τ}
  {readings : PlatformReadings F D config.windowSize}

theorem nodeEncode_keeps {r : Outcome (EncodedWindow D)}
    (h : nodeEncode config node readings = (r, node')) :
    node'.observer = node.observer ∧ node'.security = node.security ∧
      node'.windowId = node.windowId ∧ node'.transport = node.transport := by
  rw [nodeEncode] at h
  split at h
  · cases h
    exact ⟨rfl, rfl, rfl, rfl⟩
  simp only at h
  split at h
  · cases h
    exact ⟨rfl, rfl, rfl, rfl⟩
  · cases h
    exact ⟨rfl, rfl, rfl, rfl⟩

theorem nodeEncode_eq_ok {window : EncodedWindow D}
    (h : nodeEncode config node readings = (.ok window, node')) :
    window.windowId = node.windowId ∧
      codecEncode readings.samples window.windowId window.state config maxRepresentation =
        .ok (window.representation, window.metadata) := by
  rw [nodeEncode] at h
  split at h
  · simp at h
  simp only at h
  split at h
  · simp at h
  · rename_i hencode
    cases h
    exact ⟨rfl, hencode⟩

/-- An encoded window has at least the header, and fits the buffer. -/
theorem nodeEncode_length {window : EncodedWindow D}
    (h : nodeEncode config node readings = (.ok window, node')) :
    0 < window.representation.length ∧ window.representation.length ≤ maxRepresentation := by
  obtain ⟨-, hencode⟩ := nodeEncode_eq_ok h
  obtain ⟨a, -, hbytes, -, hlength⟩ := codecEncode_eq_ok hencode
  refine ⟨?_, hlength⟩
  rw [hbytes, List.length_append, List.length_append, length_writeU32]
  omega

end Encode

variable [CDouble D] [CFloat F D]

/-- The process comes through its turns, whatever the requests do. -/
theorem nodeProcess_total (clockSecond : ℕ) (P : SecurityProvider σ) (request : TimedRequest τ)
    (config : AdaptiveConfig D) (node : NodeProcess D σ τ)
    (readings : List (PlatformReadings F D config.windowSize)) :
    ∃ reports node', nodeProcess clockSecond P request config node readings =
      some (reports, node') := by
  induction readings generalizing node with
  | nil => exact ⟨[], node, rfl⟩
  | cons reading readings ih =>
    have hturn : ∃ report node', nodeIteration clockSecond P request config node reading =
        some (report, node') := by
      rw [nodeIteration]
      rcases hencode : nodeEncode config node reading with ⟨e | window, encoded⟩
      · exact ⟨_, _, rfl⟩
      simp only
      cases hnode : nodePlan P.overhead config window with
      | none => exact ⟨_, _, rfl⟩
      | some plan =>
        obtain ⟨hsendable, -⟩ := nodePlan_eq_some hnode (nodeEncode_length hencode).2
        have hat := NodeState.at_zero plan encoded.security (encoded.transport, encoded.observer)
        have hblocks : plan.blockCount ≤ 0 + plan.representation.length := by
          rw [Nat.zero_add]
          exact hsendable.blockCount_le
        obtain ⟨n, hloop⟩ : ∃ n, nodeLoop P (observedRequest clockSecond request) plan
            plan.representation.length _ = some n := nodeLoop_total hat hsendable.toValid hblocks
        simp only [hloop]
        exact ⟨_, _, rfl⟩
    obtain ⟨report, node₁, hturn⟩ := hturn
    obtain ⟨reports, node', hrest⟩ := ih node₁
    refine ⟨report :: reports, node', ?_⟩
    rw [nodeProcess, hturn]
    simp only
    rw [hrest]

/-! ## The requests of a window -/

/-- The requests for the blocks of a window from block `i` on, from one state of the network to
another, and whether the node gets to the end of the window. -/
inductive TransferPlan.Requests {P : SecurityProvider σ} (L : RecordLayer P) (key : L.Key)
    (plan : TransferPlan) (request : TimedRequest τ) : ℕ → τ → Bool → τ → Prop where
  | finished {t} : Requests L key plan request plan.blockCount t true t
  | unsealed {i t} (hi : i < plan.blockCount) : Requests L key plan request i t false t
  | refused {i t record} (hi : i < plan.blockCount)
      (hrecord : IsBlockRequest L key plan i (plan.blockRequest i record))
      (hanswer : responseHandler (request t (plan.blockRequest i record)).1 = false) :
      Requests L key plan request i t false (request t (plan.blockRequest i record)).2.2
  | acknowledged {i t record finished t'} (hi : i < plan.blockCount)
      (hrecord : IsBlockRequest L key plan i (plan.blockRequest i record))
      (hanswer : responseHandler (request t (plan.blockRequest i record)).1 = true)
      (rest : Requests L key plan request (i + 1)
        (request t (plan.blockRequest i record)).2.2 finished t') :
      Requests L key plan request i t finished t'

section Loop

variable {P : SecurityProvider σ} {L : RecordLayer P} {key : L.Key} {plan : TransferPlan} {i : ℕ}

theorem nodeLoop_requests {clockSecond : ℕ} {request : TimedRequest τ} {turns : ℕ}
    {n n' : NodeState σ (τ × ContikiObserver D)} (hplan : plan.Valid P.overhead)
    (hkey : L.sealKey n.security = key) (hat : n.At plan i) (hi : i ≤ plan.blockCount)
    (h : nodeLoop P (observedRequest clockSecond request) plan turns n = some n') :
    L.sealKey n'.security = key ∧ plan.Requests L key request i n.transport.1
      (plan.representation.length ≤ n'.representationOffset) n'.transport.1 := by
  have hdone {n : NodeState σ (τ × ContikiObserver D)} {i : ℕ} (hat : n.At plan i)
      (hi : i ≤ plan.blockCount) (hend : ¬n.representationOffset < plan.representation.length) :
      plan.Requests L key request i n.transport.1
        (plan.representation.length ≤ n.representationOffset) n.transport.1 := by
    have hcount : i = plan.blockCount := by
      have hnot := mt (hat.goes_on_iff hplan).mpr hend
      omega
    rw [hcount, decide_eq_true (Nat.le_of_not_lt hend)]
    exact .finished
  induction turns generalizing i n with
  | zero =>
    rw [nodeLoop] at h
    split at h
    · cases h
    rename_i hend
    cases h
    exact ⟨hkey, hdone hat hi hend⟩
  | succ turns ih =>
    rw [nodeLoop] at h
    split at h
    · rename_i hgoes
      have hlt := (hat.goes_on_iff hplan).mp hgoes
      have hstops : decide (plan.representation.length ≤ n.representationOffset) = false :=
        decide_eq_false (Nat.not_le.mpr hgoes)
      have hturn : n.Turns P (observedRequest clockSecond request) plan i
          (nodeTurn P (observedRequest clockSecond request) plan n) := nodeTurn_turns hat hplan
      generalize nodeTurn P (observedRequest clockSecond request) plan n = r at hturn h
      cases hturn with
      | unsealed hseal =>
        cases h
        refine ⟨(L.seal_keeps hseal).1.trans hkey, ?_⟩
        rw [hstops]
        exact .unsealed hlt
      | refused hseal hanswer =>
        have hrecord := isBlockRequest_of_seal (hkey ▸ (L.seal_ok hseal).1) (L.seal_ok hseal).2.2.2
        cases h
        refine ⟨(L.seal_keeps hseal).1.trans hkey, ?_⟩
        rw [hstops]
        exact .refused hlt hrecord hanswer
      | @acknowledged record security n₁ hseal hanswer hsecurity htransport hnext =>
        have hrecord := isBlockRequest_of_seal (hkey ▸ (L.seal_ok hseal).1) (L.seal_ok hseal).2.2.2
        have hkey' : L.sealKey n₁.security = key := by
          rw [hsecurity, (L.seal_keeps hseal).1, hkey]
        obtain ⟨hend, hrest⟩ := ih hkey' hnext hlt h
        rw [htransport] at hrest
        exact ⟨hend, .acknowledged hlt hrecord hanswer hrest⟩
    · rename_i hend
      cases h
      exact ⟨hkey, hdone hat hi hend⟩

end Loop

/-! ## The process -/

def EncodedWindow.whole (window : EncodedWindow D) : Bytes × Bytes :=
  (writeU32Be window.windowId, window.representation)

/-- The node between two of its turns, with the reports of the turns so far. -/
structure NodeProcess.Invariant {P : SecurityProvider σ} (L : RecordLayer P) (key : L.Key)
    (plans : List TransferPlan) (reports : List (NodeReport D)) (node : NodeProcess D σ τ) :
    Prop where
  sealKey : L.sealKey node.security = key
  sendable : SendablePlans P.overhead plans
  windowId : node.windowId = UInt32.ofNat (plans.length + 1)
  ids_le : ∀ plan ∈ plans, plan.windowId.toNat ≤ plans.length
  sent : ∀ plan ∈ plans, ∃ window finished,
    NodeReport.sent window finished ∈ reports ∧ plan.whole = window.whole

/-- What a turn does to the network: nothing, or the requests of a new window. -/
inductive NodeProcess.Turns {P : SecurityProvider σ} (L : RecordLayer P) (key : L.Key)
    (request : TimedRequest τ) (plans : List TransferPlan) (t : τ) :
    NodeReport D → List TransferPlan → τ → Prop where
  | skipped {report} (hreport : ∀ window finished, report ≠ .sent window finished) :
      Turns L key request plans t report plans t
  | sent {window finished plan t'} (hplans : SendablePlans P.overhead (plans ++ [plan]))
      (hfresh : ∀ other ∈ plans, other.windowId ≠ plan.windowId)
      (hwhole : plan.whole = window.whole) (hcount : 0 < plan.blockCount)
      (hrequests : plan.Requests L key request 0 t finished t') :
      Turns L key request plans t (.sent window finished) (plans ++ [plan]) t'

section Process

variable {P : SecurityProvider σ} {L : RecordLayer P} {key : L.Key} {plans : List TransferPlan}
  {reports : List (NodeReport D)} {node : NodeProcess D σ τ} {config : AdaptiveConfig D}

omit [CDouble D] [CFloat F D] in
theorem NodeProcess.Invariant.skip (h : node.Invariant L key plans reports)
    (report : NodeReport D) {node' : NodeProcess D σ τ} (hsecurity : node'.security = node.security)
    (hid : node'.windowId = node.windowId) :
    node'.Invariant L key plans (reports ++ [report]) := by
  refine ⟨by rw [hsecurity, h.sealKey], h.sendable, by rw [hid, h.windowId], h.ids_le, ?_⟩
  intro plan hplan
  obtain ⟨window, finished, hmem, hwhole⟩ := h.sent plan hplan
  exact ⟨window, finished, List.mem_append_left _ hmem, hwhole⟩

omit [CDouble D] [CFloat F D] in
theorem NodeProcess.Invariant.plan_next (h : node.Invariant L key plans reports)
    (hcount : plans.length < 4294967295) {plan : TransferPlan} (hplan : plan.Sendable P.overhead)
    (hid : plan.windowId = node.windowId) :
    SendablePlans P.overhead (plans ++ [plan]) ∧
      (∀ other ∈ plans, other.windowId ≠ plan.windowId) ∧
      ∀ other ∈ plans ++ [plan], other.windowId.toNat ≤ (plans ++ [plan]).length := by
  have hnumber : plan.windowId.toNat = plans.length + 1 := by
    rw [hid, h.windowId, UInt32.toNat_ofNat']
    omega
  have hfresh : ∀ other ∈ plans, other.windowId ≠ plan.windowId := by
    intro other hother hsame
    have hle := h.ids_le other hother
    rw [hsame, hnumber] at hle
    omega
  refine ⟨⟨?_, nodup_map_concat h.sendable.ids_nodup hfresh⟩, hfresh, ?_⟩
  · intro other hother
    rcases List.mem_append.mp hother with hother | hother
    · exact h.sendable.sendable other hother
    · rwa [List.mem_singleton.mp hother]
  · intro other hother
    rw [List.length_append, List.length_singleton]
    rcases List.mem_append.mp hother with hother | hother
    · exact (h.ids_le other hother).trans (Nat.le_succ _)
    · rw [List.mem_singleton.mp hother, hnumber]

theorem NodeProcess.Invariant.iteration (h : node.Invariant L key plans reports)
    (hcount : plans.length < 4294967295) (clockSecond : ℕ) (request : TimedRequest τ)
    (readings : PlatformReadings F D config.windowSize) :
    ∃ report node' plans', nodeIteration clockSecond P request config node readings =
        some (report, node') ∧ node'.Invariant L key plans' (reports ++ [report]) ∧
      NodeProcess.Turns L key request plans node.transport report plans' node'.transport ∧
      plans'.length ≤ plans.length + 1 := by
  rw [nodeIteration]
  cases hencode : nodeEncode config node readings with
  | mk r encoded =>
    obtain ⟨hobserver, hsecurity, hid, htransport⟩ := nodeEncode_keeps hencode
    cases r with
    | error e =>
      refine ⟨_, _, plans, rfl, h.skip _ hsecurity hid, ?_, Nat.le_succ _⟩
      rw [htransport]
      exact .skipped fun _ _ hsent => by cases hsent
    | ok window =>
      simp only
      cases hnode : nodePlan P.overhead config window with
      | none =>
        refine ⟨_, _, plans, rfl, h.skip _ hsecurity hid, ?_, Nat.le_succ _⟩
        rw [htransport]
        exact .skipped fun _ _ hsent => by cases hsent
      | some plan =>
        obtain ⟨hpos, hbuffer⟩ := nodeEncode_length hencode
        obtain ⟨hwindow, -⟩ := nodeEncode_eq_ok hencode
        obtain ⟨hsendable, hplanid, hrep, -⟩ := nodePlan_eq_some hnode hbuffer
        obtain ⟨hplans, hfresh, hids⟩ := h.plan_next hcount hsendable (hplanid.trans hwindow)
        have hcountpos : 0 < plan.blockCount := by
          apply hsendable.lt_blockCount.mpr
          rw [Nat.zero_mul, hrep]
          exact hpos
        have hat := NodeState.at_zero plan encoded.security (encoded.transport, encoded.observer)
        have hend : ∃ n, nodeLoop P (observedRequest clockSecond request) plan
            plan.representation.length
            ⟨encoded.security, 0, 0, (encoded.transport, encoded.observer)⟩ = some n :=
          nodeLoop_total hat hsendable.toValid (by rw [Nat.zero_add]; exact hsendable.blockCount_le)
        obtain ⟨n, hloop⟩ := hend
        have hkey : L.sealKey encoded.security = key := by rw [hsecurity, h.sealKey]
        obtain ⟨hkey', hrequests⟩ :=
          nodeLoop_requests hsendable.toValid hkey hat (Nat.zero_le _) hloop
        have hwhole : plan.whole = window.whole := by
          rw [TransferPlan.whole, EncodedWindow.whole, hplanid, hrep]
        simp only [hloop]
        refine ⟨_, _, plans ++ [plan], rfl, ⟨hkey', hplans, ?_, hids, ?_⟩, ?_, ?_⟩
        · rw [hid, h.windowId, List.length_append, List.length_singleton]
          exact (UInt32.ofNat_add (plans.length + 1) 1).symm
        · intro other hother
          rcases List.mem_append.mp hother with hother | hother
          · obtain ⟨window', finished, hmem, hsame⟩ := h.sent other hother
            exact ⟨window', finished, List.mem_append_left _ hmem, hsame⟩
          · rw [List.mem_singleton.mp hother]
            exact ⟨window, _, List.mem_append_right _ (List.mem_singleton_self _), hwhole⟩
        · rw [← htransport]
          exact .sent hplans hfresh hwhole hcountpos hrequests
        · rw [List.length_append, List.length_singleton]

/-- Any number of turns: what every turn keeps of the network holds at the end. -/
theorem NodeProcess.Invariant.run {request : TimedRequest τ}
    {T : List TransferPlan → List (NodeReport D) → τ → Prop}
    (hT : ∀ plans reports t report plans' t', T plans reports t →
      NodeProcess.Turns L key request plans t report plans' t' → T plans' (reports ++ [report]) t')
    (h : node.Invariant L key plans reports) (hnode : T plans reports node.transport)
    (clockSecond : ℕ) (readings : List (PlatformReadings F D config.windowSize))
    (hcount : plans.length + readings.length ≤ 4294967295) :
    ∃ reports' node' plans', nodeProcess clockSecond P request config node readings =
        some (reports', node') ∧ node'.Invariant L key plans' (reports ++ reports') ∧
      T plans' (reports ++ reports') node'.transport := by
  induction readings generalizing node plans reports with
  | nil => exact ⟨[], node, plans, rfl, by rwa [List.append_nil], by rwa [List.append_nil]⟩
  | cons reading readings ih =>
    rw [List.length_cons] at hcount
    obtain ⟨report, node₁, plans₁, hturn, hinv, hturns, hlength⟩ :=
      h.iteration (by omega) clockSecond request reading
    obtain ⟨reports', node', plans', hrest, hinv', hT'⟩ :=
      ih hinv (hT _ _ _ _ _ _ hnode hturns) (by omega)
    rw [List.append_assoc, List.singleton_append] at hinv' hT'
    refine ⟨report :: reports', node', plans', ?_, hinv', hT'⟩
    rw [nodeProcess, hturn]
    simp only
    rw [hrest]

omit [CFloat F D] in
theorem NodeProcess.invariant_init (config : AdaptiveConfig D) {client server : σ}
    (hkeys : L.sealKey client = L.openKey server) (t : τ) :
    NodeProcess.Invariant L (L.openKey server) [] [] (nodeProcessInit config client t) := by
  refine ⟨hkeys, ⟨?_, List.nodup_nil⟩, rfl, ?_, ?_⟩ <;> (intro _ hmem; cases hmem)

end Process

/-! ## Over an arbitrary network -/

section Network

variable {P : SecurityProvider σ} {L : RecordLayer P} {key : L.Key} {plans : List TransferPlan}
  {plan : TransferPlan} {i : ℕ} {e e' : Exchange σ F D} {network : ℕ → NetworkTurn}

/-- Only blocks below `i` of a window have been requested. -/
def Exchange.Before (e : Exchange σ F D) (plan : TransferPlan) (i : ℕ) : Prop :=
  ∀ request ∈ e.requests, request.token = writeU32Be plan.windowId →
    ∃ j < i, request.block1Number = UInt32.ofNat j

omit [CDouble D] [CFloat F D] in
theorem Exchange.Before.fresh (h : e.Before plan i) {overhead : ℕ}
    (hplan : plan.Sendable overhead) (hi : i < plan.blockCount) :
    ∀ earlier ∈ e.requests, earlier.position ≠ plan.position i := by
  intro earlier hearlier hsame
  obtain ⟨j, hj, hnumber⟩ := h earlier hearlier (congrArg Prod.fst hsame)
  have heq : UInt32.ofNat j = UInt32.ofNat i := hnumber.symm.trans (congrArg Prod.snd hsame)
  have hlt := (hplan.ofNat_inj (hj.le.trans hi.le) hi.le).mp heq
  omega

omit [CDouble D] [CFloat F D] in
/-- The request for block `i` follows those for the blocks below it. -/
theorem Exchange.Before.next (h : e.Before plan i) {record : Bytes}
    (hrequests : e'.requests = e.requests ++ [plan.blockRequest i record]) :
    e'.Before plan (i + 1) := by
  intro request hrequest htoken
  rw [hrequests] at hrequest
  rcases List.mem_append.mp hrequest with hrequest | hrequest
  · obtain ⟨j, hj, hnumber⟩ := h request hrequest htoken
    exact ⟨j, by omega, hnumber⟩
  · rw [List.mem_singleton.mp hrequest]
    exact ⟨i, Nat.lt_succ_self i, rfl⟩

omit [CDouble D] [CFloat F D] in
/-- A window with an id of its own can be requested. -/
theorem Exchange.Invariant.plan_next (h : e.Invariant L key plans)
    (hfresh : ∀ other ∈ plans, other.windowId ≠ plan.windowId) :
    e.Invariant L key (plans ++ [plan]) ∧ e.Before plan 0 := by
  constructor
  · refine ⟨h.openKey, h.samples, ?_, h.positions_nodup, h.assembled.mono, ?_, h.tokens_nodup⟩
    · intro request hrequest
      obtain ⟨other, hother, hblock⟩ := h.requests request hrequest
      exact ⟨other, List.mem_append_left _ hother, hblock⟩
    · intro d hd
      obtain ⟨other, hother, hwhole⟩ := h.whole d hd
      exact ⟨other, List.mem_append_left _ hother, hwhole⟩
  · intro request hrequest htoken
    obtain ⟨other, hother, i, -, hblock⟩ := h.requests request hrequest
    have hsame := congrArg Prod.fst hblock.position_eq
    exact absurd (writeU32Be_inj (hsame.symm.trans htoken)) (hfresh other hother)

/-- The requests of a window keep the two ends in step, and the node gets to the end of the
window only if the server has decoded the window. -/
theorem TransferPlan.Requests.exchange {finished : Bool}
    (h : plan.Requests L key (exchange P network) i e finished e')
    (hplans : SendablePlans P.overhead plans) (hplan : plan ∈ plans)
    (hinv : e.Invariant L key plans) (hbefore : e.Before plan i) :
    e'.Invariant L key plans ∧ (∀ d ∈ e.decoded, d ∈ e'.decoded) ∧
      (finished = true → i < plan.blockCount → plan.whole ∈ e'.decoded) := by
  have hsendable := hplans.sendable plan hplan
  induction h with
  | finished => exact ⟨hinv, fun d hd => hd, fun _ hlt => absurd hlt (Nat.lt_irrefl _)⟩
  | unsealed hi => exact ⟨hinv, fun d hd => hd, fun hend => by cases hend⟩
  | refused hi hrecord hanswer =>
    obtain ⟨hinv', -, hold, -⟩ :=
      hinv.request hplans hplan hi hrecord (hbefore.fresh hsendable hi) network
    exact ⟨hinv', hold, fun hend => by cases hend⟩
  | @acknowledged i _ _ _ _ hi hrecord hanswer rest ih =>
    obtain ⟨hinv', hrequests, hold, hdecoded⟩ :=
      hinv.request hplans hplan hi hrecord (hbefore.fresh hsendable hi) network
    obtain ⟨hinv'', hold', hwhole⟩ := ih hinv' (hbefore.next hrequests)
    refine ⟨hinv'', fun d hd => hold' d (hold d hd), fun hend _ => ?_⟩
    by_cases hlast : i + 1 = plan.blockCount
    · exact hold' _ (hdecoded hanswer hlast)
    · exact hwhole hend (by omega)

/-- The two ends between the turns of the process. -/
structure Exchange.Follows {P : SecurityProvider σ} (L : RecordLayer P) (key : L.Key)
    (plans : List TransferPlan) (reports : List (NodeReport D)) (e : Exchange σ F D) : Prop where
  invariant : e.Invariant L key plans
  finished : ∀ window, NodeReport.sent window true ∈ reports → window.whole ∈ e.decoded

theorem Exchange.Follows.turn {reports : List (NodeReport D)} {report : NodeReport D}
    {plans' : List TransferPlan} (h : e.Follows L key plans reports)
    (hturn : NodeProcess.Turns L key (exchange P network) plans e report plans' e') :
    e'.Follows L key plans' (reports ++ [report]) := by
  cases hturn with
  | skipped hreport =>
    refine ⟨h.invariant, fun window hmem => ?_⟩
    rcases List.mem_append.mp hmem with hmem | hmem
    · exact h.finished window hmem
    · exact absurd (List.mem_singleton.mp hmem).symm (hreport window true)
  | @sent window finished plan _ hplans hfresh hwhole hcount hrequests =>
    obtain ⟨hinv, hbefore⟩ := h.invariant.plan_next hfresh
    obtain ⟨hinv', hold, hdecoded⟩ := hrequests.exchange hplans
      (List.mem_append_right _ (List.mem_singleton_self plan)) hinv hbefore
    refine ⟨hinv', fun window' hmem => ?_⟩
    rcases List.mem_append.mp hmem with hmem | hmem
    · exact hold _ (h.finished window' hmem)
    · obtain ⟨rfl, hdone⟩ := NodeReport.sent.inj (List.mem_singleton.mp hmem)
      rw [← hwhole]
      exact hdecoded hdone.symm hcount

def exchangeInit (security : σ) (metadata : CodecMetadata D) : Exchange σ F D where
  server := serverInit security metadata
  requests := []
  decoded := []

theorem Exchange.invariant_init (L : RecordLayer P) (server : σ) (metadata : CodecMetadata D) :
    Exchange.Invariant L (L.openKey server) [] (exchangeInit (F := F) server metadata) := by
  refine ⟨rfl, List.length_replicate, ?_, List.nodup_nil, Or.inl ⟨rfl, rfl⟩, ?_,
    List.nodup_nil⟩ <;> (intro _ hmem; cases hmem)

/-- Over every network and for every behaviour of the board, the process comes through all
its turns; the windows that it has finished are decoded by the server as they were encoded,
the server decodes nothing else, and no window twice. -/
theorem nodeProcess_delivers (L : RecordLayer P) (clockSecond : ℕ) (network : ℕ → NetworkTurn)
    (config : AdaptiveConfig D) {client server : σ} (hkeys : L.sealKey client = L.openKey server)
    (metadata : CodecMetadata D) (readings : List (PlatformReadings F D config.windowSize))
    (hcount : readings.length ≤ 4294967295) :
    ∃ reports node, nodeProcess clockSecond P (exchange P network) config
        (nodeProcessInit config client (exchangeInit (F := F) server metadata)) readings =
          some (reports, node) ∧
      (∀ window, .sent window true ∈ reports → window.whole ∈ node.transport.decoded) ∧
      (∀ d ∈ node.transport.decoded, ∃ window finished,
        .sent window finished ∈ reports ∧ d = window.whole) ∧
      (node.transport.decoded.map (·.1)).Nodup := by
  have hstart : Exchange.Follows L (L.openKey server) [] []
      (exchangeInit (F := F) server metadata) :=
    ⟨Exchange.invariant_init L server metadata, fun _ hmem => by cases hmem⟩
  obtain ⟨reports, node, plans, hrun, hinv, hfollows⟩ :=
    (NodeProcess.invariant_init config hkeys _).run
      (fun _ _ _ _ _ _ hfollows hturn => Exchange.Follows.turn hfollows hturn)
      hstart clockSecond readings (by simpa using hcount)
  refine ⟨reports, node, hrun, hfollows.finished, ?_, hfollows.invariant.tokens_nodup⟩
  intro d hd
  obtain ⟨plan, hplan, rfl, -⟩ := hfollows.invariant.whole d hd
  obtain ⟨window, finished, hmem, hwhole⟩ := hinv.sent plan hplan
  exact ⟨window, finished, hmem, hwhole⟩

end Network

section Lossy

/-- A window of two blocks, on a board without hooks of its own for the ratios. -/
def smallReadings : PlatformReadings Single ℚ 8 := ⟨smallWindow, rfl, 0, 0⟩

/-- The second request is late, behind the one after it a copy of the first block. -/
def lateNetwork : ℕ → NetworkTurn
  | 0 => ⟨[0], some 0, 10⟩
  | 1 => ⟨[], none, 100⟩
  | 2 => ⟨[1, 2], some 0, 10⟩
  | _ => ⟨[3, 0], some 0, 10⟩

def lateRun : Option (List (NodeReport ℚ) × NodeProcess ℚ TestContext
    (Exchange TestContext Single ℚ)) :=
  nodeProcess 128 testProvider (exchange testProvider lateNetwork) twoBlocks
    (nodeProcessInit twoBlocks (securityTestPair 7).1
      (exchangeInit (securityTestPair 7).2 noMetadata)) [smallReadings, smallReadings]

/-- The server decodes both windows, of which the node has given up the first. -/
theorem nodeProcess_delivers_late :
    lateRun.map (fun r => r.2.transport.decoded.length) = some 2 ∧
    ∃ reports node, lateRun = some (reports, node) ∧
      (∀ window, .sent window true ∈ reports → window.whole ∈ node.transport.decoded) ∧
      (∀ d ∈ node.transport.decoded, ∃ window finished,
        .sent window finished ∈ reports ∧ d = window.whole) ∧
      (node.transport.decoded.map (·.1)).Nodup :=
  ⟨by decide +kernel, nodeProcess_delivers testLayer 128 lateNetwork twoBlocks rfl noMetadata
    [smallReadings, smallReadings] (by decide)⟩

end Lossy

end AdaptiveLowpan
