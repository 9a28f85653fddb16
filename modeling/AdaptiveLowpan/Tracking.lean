import AdaptiveLowpan.Retransmission

/-! # How the receiver follows a run with copies

`Tracks` ties a receiver to the packets that were delivered and to those still to come.
A new packet advances it, a copy does not; both keep it. -/

namespace AdaptiveLowpan
open ByteWords CheckedMemory

variable {F D σ : Type} [CDouble D] [CFloat F D] {P : SecurityProvider σ}

def HoldsBefore (windows : List SentWindow) (receiver : Receiver σ) (sent : SentPacket) : Prop :=
  ∃ plan, (windows[sent.index]?).map (·.plan) = some plan ∧ receiver.Holds plan sent.number

/-- The receiver when `seen` was delivered, `rest` is still to come, and the next packet
has the number `n`. A packet that could be accepted again is stale; a window that is
part-way is either held up to its next packet or was reset. -/
structure Tracks (L : RecordLayer P) (key : L.Key) (windows : List SentWindow)
    (receiver : Receiver σ) (seen rest : List SentPacket) (n : ℕ) : Prop where
  openKey : L.openKey receiver.security = key
  stream : Stream L key windows n rest
  le : n ≤ 2 ^ 64
  begun : n = 2 ^ 64 → seen ≠ []
  earlier : ∀ sent ∈ seen, ∀ later ∈ rest,
    sent.index = later.index → sent.number < later.number
  fresh : ∀ h ∈ L.highest receiver.security, h.toNat < n
  stale : ∀ sent ∈ seen, ∃ m plan, Carries L key windows sent m plan ∧ m < n ∧
    (sent.number = 0 ∨ (receiver.active = true ∧ receiver.nextBlock ≠ 0) →
      ∃ h ∈ L.highest receiver.security, m ≤ h.toNat)
  place : ∀ following ∈ rest.head?, following.number ≠ 0 →
    receiver.nextBlock = 0 ∨ HoldsBefore windows receiver following
  recent : ∀ following ∈ rest.head?, following.number ≠ 0 →
    ∃ h ∈ L.highest receiver.security, n ≤ h.toNat + following.number
  started : seen ≠ [] →
    ∃ h ∈ L.highest receiver.security, n ≤ h.toNat + maxRepresentation

theorem Carries.unique {L : RecordLayer P} {key : L.Key} {windows : List SentWindow}
    {sent sent' : SentPacket} {n n' : ℕ} {plan plan' : TransferPlan}
    (h : Carries L key windows sent n plan) (h' : Carries L key windows sent' n' plan')
    (hindex : sent.index = sent'.index) : plan = plan' := by
  have hplan := h.window
  rw [hindex, h'.window] at hplan
  cases hplan
  rfl

/-- The packets behind a packet of a stream: those of its window are numbered on. -/
theorem Stream.mem {L : RecordLayer P} {key : L.Key} {windows : List SentWindow}
    {sent later : SentPacket} {rest : List SentPacket} {n : ℕ}
    (h : Stream L key windows n (sent :: rest)) (hlater : later ∈ rest) :
    ∃ m plan, Carries L key windows later m plan ∧ sent.index ≤ later.index ∧
      (later.index = sent.index →
        sent.number < later.number ∧ m + sent.number = n + later.number) := by
  induction rest generalizing sent n with
  | nil => cases hlater
  | cons following rest ih =>
    cases h with
    | @cons _ _ _ plan hcarries hfollows htail =>
      rcases hcarries.more_or_last with hmore | hlast
      · obtain ⟨following', hmem, hindex, hnumber⟩ := hfollows.more hmore
        cases hmem
        rcases List.mem_cons.mp hlater with rfl | hlater
        · cases htail with
          | cons hcarries' _ _ =>
            exact ⟨n + 1, _, hcarries', hindex.ge, fun _ => ⟨by omega, by omega⟩⟩
        · obtain ⟨m, plan', hcarries', hle, hposition⟩ := ih htail hlater
          refine ⟨m, plan', hcarries', by omega, ?_⟩
          intro hsame
          obtain ⟨hlt, hsum⟩ := hposition (by omega)
          exact ⟨by omega, by omega⟩
      · have hlt := (hfollows.last hlast).1 later hlater
        rcases List.mem_cons.mp hlater with rfl | hlater
        · cases htail with
          | cons hcarries' _ _ =>
            exact ⟨n + 1, _, hcarries', hlt.le, fun hsame => absurd hsame hlt.ne'⟩
        · obtain ⟨m, plan', hcarries', -, -⟩ := ih htail hlater
          exact ⟨m, plan', hcarries', hlt.le, fun hsame => absurd hsame hlt.ne'⟩

section Steps

variable {L : RecordLayer P} {key : L.Key} {windows : List SentWindow} {receiver : Receiver σ}
  {seen rest : List SentPacket} {sent : SentPacket} {n : ℕ}

/-- A copy is rejected. It leaves the receiver as it is, or, if it is a block 0, at the
start of its window. -/
theorem Tracks.again (h : Tracks L key windows receiver seen rest n) (hsent : sent ∈ seen)
    (out : DecodeTarget F D) :
    ∃ e receiver', receiverAccept P receiver sent.packet out = (fail e, receiver', out) ∧
      (sent.number = 0 → receiver'.nextBlock = 0) ∧ (sent.number ≠ 0 → receiver' = receiver) ∧
      Tracks L key windows receiver' seen rest n := by
  obtain ⟨m, plan, hcarries, hm, hstale⟩ := h.stale sent hsent
  have hlt : m < 2 ^ 64 := Nat.lt_of_lt_of_le hm h.le
  by_cases hreach : sent.number = 0 ∨ (receiver.active = true ∧ receiver.nextBlock ≠ 0)
  · obtain ⟨top, htop, hle⟩ := hstale hreach
    have hblock := hcarries.block
    rw [← h.openKey] at hblock
    have hle' : UInt64.ofNat m ≤ top := by
      rw [UInt64.le_iff_toNat_le, UInt64.toNat_ofNat_of_lt' hlt]
      exact hle
    obtain ⟨e, haccept⟩ :=
      receiverAccept_stale hcarries.bounded hcarries.number_lt hblock htop hle' out
    by_cases hzero : sent.number = 0
    · rw [if_pos hzero] at haccept
      refine ⟨e, _, haccept, fun _ => rfl, fun hpos => absurd hzero hpos, h.openKey, h.stream,
        h.le, h.begun, h.earlier, h.fresh, ?_, fun _ _ _ => Or.inl rfl, h.recent, h.started⟩
      intro other hother
      obtain ⟨m', plan', hcarries', hm', hstale'⟩ := h.stale other hother
      refine ⟨m', plan', hcarries', hm', ?_⟩
      rintro (hzero' | ⟨-, hne⟩)
      · exact hstale' (Or.inl hzero')
      · exact absurd rfl hne
    · rw [if_neg hzero] at haccept
      exact ⟨e, receiver, haccept, fun hzero' => absurd hzero' hzero, fun _ => rfl, h⟩
  · have hpos : sent.number ≠ 0 := fun hzero => hreach (Or.inl hzero)
    have hwait : ¬(receiver.active = true ∧ receiver.nextBlock = UInt32.ofNat sent.number) := by
      rintro ⟨hactive, hnext⟩
      have hzero : receiver.nextBlock = 0 := by
        by_contra hne
        exact hreach (Or.inr ⟨hactive, hne⟩)
      rw [hzero] at hnext
      exact hpos ((hcarries.bounded.ofNat_inj hcarries.number_lt.le (Nat.zero_le _)).mp hnext.symm)
    have haccept := receiverAccept_unexpected hcarries.bounded hcarries.number_lt hcarries.block
      hwait hpos out
    exact ⟨.format, receiver, haccept, fun hzero => absurd hzero hpos, fun _ => rfl, h⟩

theorem Tracks.earlier_cons (h : Tracks L key windows receiver seen (sent :: rest) n) :
    ∀ delivered ∈ sent :: seen, ∀ later ∈ rest,
      delivered.index = later.index → delivered.number < later.number := by
  intro delivered hdelivered later hlater hindex
  rcases List.mem_cons.mp hdelivered with rfl | hdelivered
  · obtain ⟨m, plan, -, -, hposition⟩ := h.stream.mem hlater
    exact (hposition hindex.symm).1
  · exact h.earlier delivered hdelivered later (List.mem_cons_of_mem _ hlater) hindex

/-- What is left to show once a new packet has been accepted. -/
theorem Tracks.advance (h : Tracks L key windows receiver seen (sent :: rest) n) (hn : n < 2 ^ 64)
    {receiver' : Receiver σ} (hkey : L.openKey receiver'.security = L.openKey receiver.security)
    (hhighest : L.highest receiver'.security = some (UInt64.ofNat n))
    (hplace : ∀ following ∈ rest.head?, following.number ≠ 0 →
      HoldsBefore windows receiver' following) :
    Tracks L key windows receiver' (sent :: seen) rest (n + 1) := by
  have htop : (UInt64.ofNat n).toNat = n := UInt64.toNat_ofNat_of_lt' hn
  cases h.stream with
  | cons hcarries hfollows htail =>
    refine ⟨hkey.trans h.openKey, htail, hn, fun _ => List.cons_ne_nil _ _,
      h.earlier_cons, ?_, ?_, fun _ hmem hne => Or.inr (hplace _ hmem hne),
      ?_, ?_⟩
    · intro top hmem
      rw [hhighest] at hmem
      cases hmem
      omega
    · intro other hother
      rcases List.mem_cons.mp hother with rfl | hother
      · exact ⟨n, _, hcarries, Nat.lt_succ_self n, fun _ => ⟨_, hhighest, htop.ge⟩⟩
      · obtain ⟨m, plan, hcarries', hm, -⟩ := h.stale other hother
        exact ⟨m, plan, hcarries', by omega, fun _ => ⟨_, hhighest, by omega⟩⟩
    · intro following _ hne
      exact ⟨_, hhighest, by omega⟩
    · intro _
      refine ⟨_, hhighest, ?_⟩
      have hmax : maxRepresentation = 1088 := rfl
      omega

/-- The next packet of a window that is held is accepted, and the last one completes the
window. -/
theorem Tracks.accepted (h : Tracks L key windows receiver seen (sent :: rest) n)
    (hn : n < 2 ^ 64) (hholds : sent.number = 0 ∨ HoldsBefore windows receiver sent)
    (out : DecodeTarget F D)
    (hdecode : ∀ window ∈ windows, (codecDecode window.plan.representation out).1 = .ok ()) :
    ∃ plan receiver' out', (windows[sent.index]?).map (·.plan) = some plan ∧
      Tracks L key windows receiver' (sent :: seen) rest (n + 1) ∧
      (∀ following ∈ rest.head?, following.number ≠ 0 →
        HoldsBefore windows receiver' following) ∧
      (sent.number + 1 < plan.blockCount ∧
          receiverAccept P receiver sent.packet out = (.ok .ok, receiver', out') ∨
        sent.number + 1 = plan.blockCount ∧
          receiverAccept P receiver sent.packet out = (.ok .complete, receiver', out') ∧
          receiver'.representation = plan.representation) := by
  cases h.stream with
  | @cons _ _ _ plan hcarries hfollows htail =>
    have hheld : sent.number = 0 ∨ receiver.Holds plan sent.number := by
      rcases hholds with hzero | ⟨plan', hplan', hheld⟩
      · exact Or.inl hzero
      · have hsame := hplan'.symm.trans hcarries.window
        cases hsame
        exact Or.inr hheld
    have hblock := hcarries.block
    rw [← h.openKey] at hblock
    obtain ⟨receiver₁, hnext, hkey, hhighest, haccept⟩ := receiverAccept_next hcarries.bounded
      hcarries.number_lt hblock (by
        intro top htop
        rw [UInt64.lt_iff_toNat_lt, UInt64.toNat_ofNat_of_lt' hn]
        exact h.fresh top htop) hheld out
    rcases hcarries.more_or_last with hmore | hlast
    · have hplace : ∀ following ∈ rest.head?, following.number ≠ 0 →
          HoldsBefore windows receiver₁ following := by
        intro following hmem _
        obtain ⟨following', hmem', hindex, hnumber⟩ := hfollows.more hmore
        have hsame := Option.mem_unique hmem hmem'
        subst hsame
        exact ⟨plan, by rw [hindex]; exact hcarries.window, by rw [hnumber]; exact hnext⟩
      rw [if_pos hmore] at haccept
      exact ⟨plan, receiver₁, out, hcarries.window, h.advance hn hkey hhighest hplace, hplace,
        Or.inl ⟨hmore, haccept⟩⟩
    · have hplace : ∀ following ∈ rest.head?, following.number ≠ 0 →
          HoldsBefore windows { receiver₁ with active := false } following :=
        fun following hmem hne => absurd ((hfollows.last hlast).2 following hmem) hne
      have hwhole : plan.sentUpTo (sent.number + 1) = plan.representation := by
        rw [hlast, hcarries.bounded.sentUpTo_blockCount]
      obtain ⟨window, hwindow, rfl⟩ := Option.map_eq_some_iff.mp hcarries.window
      have hdecoded := hdecode window (List.mem_of_getElem? hwindow)
      rw [if_neg hlast.not_lt, hwhole] at haccept
      cases hd : codecDecode window.plan.representation out with
      | mk d out' =>
        rw [hd] at hdecoded haccept
        cases hdecoded
        exact ⟨window.plan, { receiver₁ with active := false }, out', hcarries.window,
          h.advance hn hkey hhighest hplace, hplace,
          Or.inr ⟨hlast, haccept, hnext.representation.trans hwhole⟩⟩

/-- The next packet of a window that was reset is out of order. -/
theorem Tracks.dropped (h : Tracks L key windows receiver seen (sent :: rest) n)
    (hn : n < 2 ^ 64) (hpos : sent.number ≠ 0) (hreset : receiver.nextBlock = 0)
    (out : DecodeTarget F D) :
    receiverAccept P receiver sent.packet out = (fail .format, receiver, out) ∧
      Tracks L key windows receiver (sent :: seen) rest (n + 1) := by
  cases h.stream with
  | @cons _ _ _ plan hcarries hfollows htail =>
    have hwait : ¬(receiver.active = true ∧ receiver.nextBlock = UInt32.ofNat sent.number) := by
      rintro ⟨-, hnext⟩
      rw [hreset] at hnext
      exact hpos ((hcarries.bounded.ofNat_inj hcarries.number_lt.le (Nat.zero_le _)).mp hnext.symm)
    refine ⟨receiverAccept_unexpected hcarries.bounded hcarries.number_lt hcarries.block hwait hpos
      out, h.openKey, htail, hn, fun _ => List.cons_ne_nil _ _, h.earlier_cons, ?_, ?_,
      fun _ _ _ => Or.inl hreset, ?_, ?_⟩
    · intro top htop
      exact Nat.lt_succ_of_lt (h.fresh top htop)
    · intro other hother
      rcases List.mem_cons.mp hother with rfl | hother
      · refine ⟨n, plan, hcarries, Nat.lt_succ_self n, ?_⟩
        rintro (hzero | ⟨-, hne⟩)
        · exact absurd hzero hpos
        · exact absurd hreset hne
      · obtain ⟨m, plan', hcarries', hm, hstale⟩ := h.stale other hother
        exact ⟨m, plan', hcarries', Nat.lt_succ_of_lt hm, hstale⟩
    · obtain ⟨top, htop, hle⟩ := h.recent sent rfl hpos
      intro following hmem hne
      rcases hcarries.more_or_last with hmore | hlast
      · obtain ⟨following', hmem', -, hnumber⟩ := hfollows.more hmore
        have hsame := Option.mem_unique hmem hmem'
        subst hsame
        exact ⟨top, htop, by omega⟩
      · exact absurd ((hfollows.last hlast).2 following hmem) hne
    · intro _
      obtain ⟨top, htop, hle⟩ := h.recent sent rfl hpos
      have hlt := hcarries.number_lt
      have hcount := hcarries.bounded.blockCount_le
      have hlength := hcarries.bounded.length_le
      exact ⟨top, htop, by omega⟩

/-- A new packet is either out of order after a reset, or what the receiver waits for. -/
theorem Tracks.holds_of_not_reset (h : Tracks L key windows receiver seen (sent :: rest) n)
    (hreset : ¬(sent.number ≠ 0 ∧ receiver.nextBlock = 0)) :
    sent.number = 0 ∨ HoldsBefore windows receiver sent := by
  by_cases hzero : sent.number = 0
  · exact Or.inl hzero
  · rcases h.place sent rfl hzero with hnext | hholds
    · exact absurd ⟨hzero, hnext⟩ hreset
    · exact Or.inr hholds

/-- Behind the last packet of a window there are only later windows. -/
theorem Tracks.index_lt_of_last (h : Tracks L key windows receiver seen (sent :: rest) n)
    {plan : TransferPlan} (hplan : (windows[sent.index]?).map (·.plan) = some plan)
    (hlast : sent.number + 1 = plan.blockCount) : ∀ later ∈ rest, sent.index < later.index := by
  cases h.stream with
  | cons hcarries hfollows htail =>
    have hsame := hcarries.window
    rw [hplan] at hsame
    cases hsame
    exact (hfollows.last hlast).1

end Steps

end AdaptiveLowpan
