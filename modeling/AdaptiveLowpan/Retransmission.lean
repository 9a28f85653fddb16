import AdaptiveLowpan.EndToEnd

/-! # Copies of packets that were delivered before

The windows of a run are delivered in the sending order, with extra copies of packets
put in between. A copy is never accepted; a copy of a block 0 resets the receiver, and
the window in progress then stays incomplete. -/

namespace AdaptiveLowpan
open ByteWords CheckedMemory

/-- What one call has sent. -/
structure SentWindow where
  plan : TransferPlan
  packets : List Bytes

/-- A packet in the sending order: the number of its window, its number in the window,
and its bytes. -/
structure SentPacket where
  index : ℕ
  number : ℕ
  packet : Bytes
  deriving DecidableEq

def numberPackets (index : ℕ) : ℕ → List Bytes → List SentPacket
  | _, [] => []
  | number, packet :: packets =>
    ⟨index, number, packet⟩ :: numberPackets index (number + 1) packets

def sentPackets : ℕ → List SentWindow → List SentPacket
  | _, [] => []
  | index, window :: windows =>
    numberPackets index 0 window.packets ++ sentPackets (index + 1) windows

variable {F D σ : Type}

/-- The calls of `receiverAccept` that deliver `rest` in order, after `seen`, with any
copies of delivered packets in between. -/
inductive WithCopies : List SentPacket → List SentPacket → List (SentPacket × DecodeTarget F D) →
    Prop where
  | done {seen} : WithCopies seen [] []
  | next {seen sent rest out calls} (tail : WithCopies (sent :: seen) rest calls) :
      WithCopies seen (sent :: rest) ((sent, out) :: calls)
  | again {seen sent rest out calls} (delivered : sent ∈ seen)
      (tail : WithCopies seen rest calls) : WithCopies seen rest ((sent, out) :: calls)

/-- Such calls where a copy of a block 0 comes only between windows: what is delivered
next, if anything, is a block 0 itself. -/
inductive Undisturbed : List SentPacket → List SentPacket → List (SentPacket × DecodeTarget F D) →
    Prop where
  | done {seen} : Undisturbed seen [] []
  | next {seen sent rest out calls} (tail : Undisturbed (sent :: seen) rest calls) :
      Undisturbed seen (sent :: rest) ((sent, out) :: calls)
  | again {seen sent rest out calls} (delivered : sent ∈ seen)
      (between : sent.number = 0 → ∀ following ∈ rest.head?, following.number = 0)
      (tail : Undisturbed seen rest calls) : Undisturbed seen rest ((sent, out) :: calls)

theorem WithCopies.mem {seen rest : List SentPacket} {calls : List (SentPacket × DecodeTarget F D)}
    (hcalls : WithCopies seen rest calls) :
    ∀ call ∈ calls, call.1 ∈ seen ∨ call.1 ∈ rest := by
  induction hcalls with
  | done =>
    intro call hcall
    cases hcall
  | @next seen sent rest out calls tail ih =>
    intro call hcall
    rcases List.mem_cons.mp hcall with rfl | hcall
    · exact Or.inr List.mem_cons_self
    · rcases ih call hcall with hmem | hmem
      · rcases List.mem_cons.mp hmem with hsame | hmem
        · exact Or.inr (hsame ▸ List.mem_cons_self)
        · exact Or.inl hmem
      · exact Or.inr (List.mem_cons_of_mem _ hmem)
  | @again seen sent rest out calls delivered tail ih =>
    intro call hcall
    rcases List.mem_cons.mp hcall with rfl | hcall
    · exact Or.inl delivered
    · exact ih call hcall

variable [CDouble D] [CFloat F D]

/-- Calls of `pipelineProcess` that all return `ADAPTIVE_OK`, and what they have sent. -/
inductive Sends (F : Type) [CFloat F D] (P : SecurityProvider σ) :
    Pipeline D σ → List SentWindow → Prop where
  | nil {pipeline} : Sends F P pipeline []
  | cons {pipeline pipeline' : Pipeline D σ} {τ : Type} {samples : List F} {metrics}
      {send : TransportSend τ} {t t' stats window plan packets windows}
      (planned : Planned P.overhead pipeline samples metrics window plan)
      (call : pipelineProcess P pipeline samples metrics (recordingSend send) (t, []) =
        (.ok stats, pipeline', t', packets))
      (rest : Sends F P pipeline' windows) : Sends F P pipeline (⟨plan, packets⟩ :: windows)

/-- The calls that return `ADAPTIVE_COMPLETE`: the window of the packet, and the
representation that the receiver holds. -/
def completions (P : SecurityProvider σ) (receiver : Receiver σ) :
    List (SentPacket × DecodeTarget F D) → List (ℕ × Bytes)
  | [] => []
  | (sent, out) :: calls =>
    match receiverAccept P receiver sent.packet out with
    | (.ok .complete, receiver, _) =>
      (sent.index, receiver.representation) :: completions P receiver calls
    | (_, receiver, _) => completions P receiver calls

/-- Every window completes exactly once, with its representation. -/
def CompletesOnce (windows : List SentWindow) (completed : List (ℕ × Bytes)) : Prop :=
  ∀ i window, windows[i]? = some window →
    completed.filter (·.1 = i) = [(i, window.plan.representation)]

/-! ## The packets of a run -/

section Stream

variable {P : SecurityProvider σ}

/-- A packet with its block of its window, under the number `n`. -/
structure Carries (L : RecordLayer P) (key : L.Key) (windows : List SentWindow)
    (sent : SentPacket) (n : ℕ) (plan : TransferPlan) : Prop where
  window : (windows[sent.index]?).map (·.plan) = some plan
  bounded : plan.Bounded P.overhead
  number_lt : sent.number < plan.blockCount
  block : IsBlockPacket L key plan sent.number (UInt64.ofNat n) sent.packet

theorem Carries.more_or_last {L : RecordLayer P} {key : L.Key} {windows : List SentWindow}
    {sent : SentPacket} {n : ℕ} {plan : TransferPlan} (h : Carries L key windows sent n plan) :
    sent.number + 1 < plan.blockCount ∨ sent.number + 1 = plan.blockCount := by
  have hlt := h.number_lt
  omega

/-- What comes after a packet: the next one of its window, or later windows. -/
structure Follows (plan : TransferPlan) (sent : SentPacket) (rest : List SentPacket) : Prop where
  more : sent.number + 1 < plan.blockCount →
    ∃ following ∈ rest.head?, following.index = sent.index ∧ following.number = sent.number + 1
  last : sent.number + 1 = plan.blockCount →
    (∀ later ∈ rest, sent.index < later.index) ∧ ∀ following ∈ rest.head?, following.number = 0

/-- The rest of a run, under consecutive numbers from `n` on. -/
inductive Stream (L : RecordLayer P) (key : L.Key) (windows : List SentWindow) :
    ℕ → List SentPacket → Prop where
  | nil {n} : Stream L key windows n []
  | cons {n sent rest plan} (carries : Carries L key windows sent n plan)
      (follows : Follows plan sent rest) (tail : Stream L key windows (n + 1) rest) :
      Stream L key windows n (sent :: rest)

theorem le_index_of_mem_sentPackets {index : ℕ} {windows : List SentWindow} {sent : SentPacket}
    (h : sent ∈ sentPackets index windows) : index ≤ sent.index := by
  induction windows generalizing index with
  | nil => cases h
  | cons window windows ih =>
    rw [sentPackets, List.mem_append] at h
    rcases h with h | h
    · have hindex : ∀ number packets, sent ∈ numberPackets index number packets →
          sent.index = index := by
        intro number packets hmem
        induction packets generalizing number with
        | nil => cases hmem
        | cons packet packets ih' =>
          rcases List.mem_cons.mp hmem with rfl | hmem
          · rfl
          · exact ih' _ hmem
      exact (hindex 0 window.packets h).ge
    · have hlater := ih h
      omega

theorem Stream.append {L : RecordLayer P} {key : L.Key} {windows : List SentWindow}
    {index : ℕ} {plan : TransferPlan} (hwindow : (windows[index]?).map (·.plan) = some plan)
    (hplan : plan.Bounded P.overhead) {rest : List SentPacket}
    (hlater : ∀ later ∈ rest, index < later.index)
    (hhead : ∀ following ∈ rest.head?, following.number = 0) {number n : ℕ}
    {packets : List Bytes}
    (hblocks : BlockPackets L key plan number (UInt64.ofNat n) packets)
    (hcount : number + packets.length = plan.blockCount)
    (hrest : Stream L key windows (n + packets.length) rest) :
    Stream L key windows n (numberPackets index number packets ++ rest) := by
  induction packets generalizing number n with
  | nil => exact hrest
  | cons packet packets ih =>
    rw [List.length_cons] at hcount hrest
    cases hblocks with
    | cons head tail =>
      have hnext : UInt64.ofNat n + 1 = UInt64.ofNat (n + 1) := by
        rw [UInt64.ofNat_add]
        rfl
      rw [hnext] at tail
      have hstream := ih tail (by omega) (by
        rw [show n + 1 + packets.length = n + (packets.length + 1) by omega]
        exact hrest)
      have hnumber : number < plan.blockCount := by omega
      have hcarries : Carries L key windows ⟨index, number, packet⟩ n plan :=
        ⟨hwindow, hplan, hnumber, head⟩
      refine .cons hcarries ⟨?_, ?_⟩ hstream
      · intro hmore
        change number + 1 < plan.blockCount at hmore
        cases packets with
        | nil =>
          rw [List.length_nil] at hcount
          omega
        | cons packet' packets => exact ⟨_, rfl, rfl, rfl⟩
      · intro hlast
        change number + 1 = plan.blockCount at hlast
        have hnil : packets = [] := List.length_eq_zero_iff.mp (by omega)
        subst hnil
        exact ⟨hlater, hhead⟩

theorem head?_sentPackets {index : ℕ} {windows : List SentWindow}
    (h : ∀ window ∈ windows, window.packets ≠ []) :
    ∀ following ∈ (sentPackets index windows).head?, following.number = 0 := by
  intro following hfollowing
  cases windows with
  | nil => cases hfollowing
  | cons window windows =>
    have hne := h window List.mem_cons_self
    rw [sentPackets] at hfollowing
    cases hpackets : window.packets with
    | nil => exact absurd hpackets hne
    | cons packet packets =>
      rw [hpackets, numberPackets] at hfollowing
      cases hfollowing
      rfl

/-- A call has one window and one plan. -/
theorem Planned.unique {overhead : ℕ} {pipeline : Pipeline D σ} {samples : List F}
    {metrics : NetworkMetrics D} {window window' : EncodedWindow D} {plan plan' : TransferPlan}
    (h : Planned overhead pipeline samples metrics window plan)
    (h' : Planned overhead pipeline samples metrics window' plan') : plan = plan' := by
  have hwindow := h.encoded.symm.trans h'.encoded
  cases hwindow
  have hplan := h.planned.symm.trans h'.planned
  cases hplan
  rfl

theorem Sends.call {L : RecordLayer P} {pipeline pipeline' : Pipeline D σ} {τ : Type}
    {samples : List F} {metrics : NetworkMetrics D} {send : TransportSend τ} {t t' : τ}
    {stats : PipelineStats D} {window : EncodedWindow D} {plan : TransferPlan}
    {packets : List Bytes} (planned : Planned P.overhead pipeline samples metrics window plan)
    (call : pipelineProcess P pipeline samples metrics (recordingSend send) (t, []) =
      (.ok stats, pipeline', t', packets)) :
    plan.Bounded P.overhead ∧ packets.length = plan.blockCount ∧ packets ≠ [] ∧
      BlockPackets L (L.sealKey pipeline.security) plan 0 (L.sequence pipeline.security) packets ∧
      L.sealKey pipeline'.security = L.sealKey pipeline.security ∧
      L.sequence pipeline'.security =
        L.sequence pipeline.security + UInt64.ofNat packets.length := by
  obtain ⟨window', plan', hplanned, hlength, hblocks, hkey, hnext⟩ :=
    pipelineProcess_recording L call
  obtain rfl := hplanned.unique planned
  obtain ⟨hbounded, -, -, hpos⟩ := hplanned.bounded
  refine ⟨hbounded, hlength, ?_, hblocks, hkey, hnext⟩
  intro hnil
  rw [hnil, List.length_nil] at hlength
  omega

theorem Sends.whole {pipeline : Pipeline D σ} {windows : List SentWindow} (L : RecordLayer P)
    (h : Sends F P pipeline windows) :
    ∀ window ∈ windows, window.packets.length = window.plan.blockCount ∧
      window.packets ≠ [] := by
  induction h with
  | nil =>
    intro window hmem
    cases hmem
  | cons planned call _ ih =>
    intro window hmem
    rcases List.mem_cons.mp hmem with rfl | hmem
    · obtain ⟨-, hlength, hne, -⟩ := Sends.call (L := L) planned call
      exact ⟨hlength, hne⟩
    · exact ih window hmem

/-- The packets of a run are a stream from the session's next number on. -/
theorem Sends.stream (L : RecordLayer P) {pipeline : Pipeline D σ} {windows : List SentWindow}
    (h : Sends F P pipeline windows) (before : List SentWindow) {n : ℕ}
    (hn : L.sequence pipeline.security = UInt64.ofNat n) :
    Stream L (L.sealKey pipeline.security) (before ++ windows) n
      (sentPackets before.length windows) := by
  induction h generalizing before n with
  | nil => exact .nil
  | @cons pipeline pipeline' τ samples metrics send t t' stats window plan packets windows planned
      call rest ih =>
    obtain ⟨hbounded, hlength, -, hblocks, hkey, hnext⟩ := Sends.call (L := L) planned call
    have htail := ih (before ++ [⟨plan, packets⟩]) (n := n + packets.length)
      (by rw [hnext, hn, UInt64.ofNat_add])
    rw [hkey, List.append_assoc, List.singleton_append, List.length_append,
      List.length_singleton] at htail
    rw [hn] at hblocks
    have hwhole : ∀ window ∈ windows, window.packets ≠ [] :=
      fun window hwindow => (rest.whole L window hwindow).2
    refine Stream.append ?_ hbounded ?_ (head?_sentPackets hwhole) hblocks
      (by rw [Nat.zero_add]; exact hlength) htail
    · rw [List.getElem?_append_right (Nat.le_refl _), Nat.sub_self]
      rfl
    · intro later hlater
      have hle := le_index_of_mem_sentPackets hlater
      omega

theorem Stream.window_of_mem {L : RecordLayer P} {key : L.Key} {windows : List SentWindow}
    {n : ℕ} {rest : List SentPacket} (h : Stream L key windows n rest) {sent : SentPacket}
    (hsent : sent ∈ rest) : ∃ window, windows[sent.index]? = some window := by
  induction h with
  | nil => cases hsent
  | cons carries _ _ ih =>
    rcases List.mem_cons.mp hsent with rfl | hsent
    · obtain ⟨window, hwindow, -⟩ := Option.map_eq_some_iff.mp carries.window
      exact ⟨window, hwindow⟩
    · exact ih hsent

end Stream

end AdaptiveLowpan
