import AdaptiveLowpan.Tracking

/-! # When every window completes exactly once

A run with copies completes every window exactly once if and only if no copy of a block
0 is delivered while a window is part-way and the run does not use up the sequence
numbers. -/

namespace AdaptiveLowpan
open ByteWords CheckedMemory

variable {F D σ : Type} [CDouble D] [CFloat F D] {P : SecurityProvider σ}

/-- Every representation is decoded into every buffer that the caller passes. -/
def Decodes (windows : List SentWindow) (calls : List (SentPacket × DecodeTarget F D)) : Prop :=
  ∀ call ∈ calls, ∀ window ∈ windows, (codecDecode window.plan.representation call.2).1 = .ok ()

theorem Decodes.tail {windows : List SentWindow} {call : SentPacket × DecodeTarget F D}
    {calls : List (SentPacket × DecodeTarget F D)} (h : Decodes windows (call :: calls)) :
    Decodes windows calls :=
  fun other hother => h other (List.mem_cons_of_mem _ hother)

/-! ## The results of single calls -/

section Calls

variable {receiver receiver' : Receiver σ} {sent : SentPacket} {out out' : DecodeTarget F D}
  {calls : List (SentPacket × DecodeTarget F D)}

theorem completions_of_error {e : Stop Failure}
    (h : receiverAccept P receiver sent.packet out = (.error e, receiver', out')) :
    completions P receiver ((sent, out) :: calls) = completions P receiver' calls := by
  rw [completions, h]

theorem completions_of_ok
    (h : receiverAccept P receiver sent.packet out = (.ok .ok, receiver', out')) :
    completions P receiver ((sent, out) :: calls) = completions P receiver' calls := by
  rw [completions, h]

theorem completions_of_complete
    (h : receiverAccept P receiver sent.packet out = (.ok .complete, receiver', out')) :
    completions P receiver ((sent, out) :: calls) =
      (sent.index, receiver'.representation) :: completions P receiver' calls := by
  rw [completions, h]

end Calls

/-! ## Runs without wrap-around -/

section Runs

variable {L : RecordLayer P} {key : L.Key} {windows : List SentWindow} {receiver : Receiver σ}
  {seen rest : List SentPacket} {n : ℕ} {calls : List (SentPacket × DecodeTarget F D)}

/-- The completion that a packet makes if its window is not disturbed. -/
def completionDue (windows : List SentWindow) (sent : SentPacket) : Option (ℕ × Bytes) :=
  ((windows[sent.index]?).map (·.plan)).bind fun plan =>
    if sent.number + 1 = plan.blockCount then some (sent.index, plan.representation) else none

theorem completionDue_of_last {sent : SentPacket} {plan : TransferPlan}
    (hplan : (windows[sent.index]?).map (·.plan) = some plan)
    (hlast : sent.number + 1 = plan.blockCount) :
    completionDue windows sent = some (sent.index, plan.representation) := by
  rw [completionDue, hplan, Option.bind_some, if_pos hlast]

theorem completionDue_of_more {sent : SentPacket} {plan : TransferPlan}
    (hplan : (windows[sent.index]?).map (·.plan) = some plan)
    (hmore : sent.number + 1 ≠ plan.blockCount) : completionDue windows sent = none := by
  rw [completionDue, hplan, Option.bind_some, if_neg hmore]

/-- Without a disturbance every last packet completes its window. -/
theorem completions_undisturbed (hcalls : Undisturbed seen rest calls)
    (h : Tracks L key windows receiver seen rest n)
    (hplace : ∀ following ∈ rest.head?, following.number ≠ 0 →
      HoldsBefore windows receiver following) (hwrap : n + rest.length ≤ 2 ^ 64)
    (hdecode : Decodes windows calls) :
    completions P receiver calls = rest.filterMap (completionDue windows) := by
  induction hcalls generalizing receiver n with
  | done => rfl
  | @next seen sent rest out calls tail ih =>
    rw [List.length_cons] at hwrap
    have hholds : sent.number = 0 ∨ HoldsBefore windows receiver sent := by
      by_cases hzero : sent.number = 0
      · exact Or.inl hzero
      · exact Or.inr (hplace sent rfl hzero)
    obtain ⟨plan, receiver', out', hplan, h', hplace', hresult⟩ :=
      h.accepted (by omega) hholds out (hdecode (sent, out) List.mem_cons_self)
    have hrest := ih h' hplace' (by omega) hdecode.tail
    rcases hresult with ⟨hmore, haccept⟩ | ⟨hlast, haccept, hrep⟩
    · rw [completions_of_ok haccept, hrest,
        List.filterMap_cons_none (completionDue_of_more hplan hmore.ne)]
    · rw [completions_of_complete haccept, hrest, hrep,
        List.filterMap_cons_some (completionDue_of_last hplan hlast)]
  | @again seen sent rest out calls delivered between tail ih =>
    obtain ⟨e, receiver', haccept, -, hkept, h'⟩ := h.again delivered out
    rw [completions_of_error haccept]
    refine ih h' ?_ hwrap hdecode.tail
    intro following hmem hne
    by_cases hzero : sent.number = 0
    · exact absurd (between hzero following hmem) hne
    · rw [hkept hzero]
      exact hplace following hmem hne

/-- Window `j` is lost: it is over, or part-way and reset. -/
def Lost (j : ℕ) (receiver : Receiver σ) (rest : List SentPacket) : Prop :=
  (∀ sent ∈ rest, sent.index ≠ j) ∨
    ∃ following ∈ rest.head?, following.index = j ∧ following.number ≠ 0 ∧ receiver.nextBlock = 0

theorem completions_lost {j : ℕ} (hcalls : WithCopies seen rest calls)
    (h : Tracks L key windows receiver seen rest n) (hlost : Lost j receiver rest)
    (hwrap : n + rest.length ≤ 2 ^ 64)
    (hdecode : Decodes windows calls) :
    ∀ c ∈ completions P receiver calls, c.1 ≠ j := by
  induction hcalls generalizing receiver n with
  | done =>
    intro c hc
    cases hc
  | @next seen sent rest out calls tail ih =>
    rw [List.length_cons] at hwrap
    by_cases hreset : sent.number ≠ 0 ∧ receiver.nextBlock = 0
    · obtain ⟨haccept, h'⟩ := h.dropped (by omega) hreset.1 hreset.2 out
      rw [completions_of_error haccept]
      refine ih h' ?_ (by omega) hdecode.tail
      rcases hlost with hover | ⟨following, hmem, hindex, -, -⟩
      · exact Or.inl fun later hlater => hover later (List.mem_cons_of_mem _ hlater)
      · cases hmem
        cases h.stream with
        | cons hcarries hfollows htail =>
          rcases hcarries.more_or_last with hmore | hlast
          · obtain ⟨following, hmem, hsame, hnumber⟩ := hfollows.more hmore
            exact Or.inr ⟨following, hmem, by omega, by omega, hreset.2⟩
          · left
            intro later hlater
            have hlt := (hfollows.last hlast).1 later hlater
            omega
    · have hover : ∀ other ∈ sent :: rest, other.index ≠ j := by
        rcases hlost with hover | ⟨following, hmem, -, hne, hzero⟩
        · exact hover
        · cases hmem
          exact absurd ⟨hne, hzero⟩ hreset
      obtain ⟨plan, receiver', out', -, h', -, hresult⟩ := h.accepted (by omega)
        (h.holds_of_not_reset hreset) out (hdecode (sent, out) List.mem_cons_self)
      have hrest := ih h' (Or.inl fun later hlater => hover later (List.mem_cons_of_mem _ hlater))
        (by omega) hdecode.tail
      rcases hresult with ⟨-, haccept⟩ | ⟨-, haccept, -⟩
      · rw [completions_of_ok haccept]
        exact hrest
      · rw [completions_of_complete haccept]
        intro c hc
        rcases List.mem_cons.mp hc with rfl | hc
        · exact hover sent List.mem_cons_self
        · exact hrest c hc
  | @again seen sent rest out calls delivered tail ih =>
    obtain ⟨e, receiver', haccept, hreset, hkept, h'⟩ := h.again delivered out
    rw [completions_of_error haccept]
    refine ih h' ?_ hwrap hdecode.tail
    rcases hlost with hover | ⟨following, hmem, hindex, hne, hzero⟩
    · exact Or.inl hover
    · refine Or.inr ⟨following, hmem, hindex, hne, ?_⟩
      by_cases hfirst : sent.number = 0
      · exact hreset hfirst
      · rw [hkept hfirst]
        exact hzero

/-- If every window still to come completes, there was no disturbance. -/
theorem undisturbed_of_completions (hcalls : WithCopies seen rest calls)
    (h : Tracks L key windows receiver seen rest n)
    (hplace : ∀ following ∈ rest.head?, following.number ≠ 0 →
      HoldsBefore windows receiver following) (hwrap : n + rest.length ≤ 2 ^ 64)
    (hdecode : Decodes windows calls)
    (hall : ∀ sent ∈ rest, ∃ c ∈ completions P receiver calls, c.1 = sent.index) :
    Undisturbed seen rest calls := by
  induction hcalls generalizing receiver n with
  | done => exact .done
  | @next seen sent rest out calls tail ih =>
    rw [List.length_cons] at hwrap
    have hholds : sent.number = 0 ∨ HoldsBefore windows receiver sent := by
      by_cases hzero : sent.number = 0
      · exact Or.inl hzero
      · exact Or.inr (hplace sent rfl hzero)
    obtain ⟨plan, receiver', out', hplan, h', hplace', hresult⟩ :=
      h.accepted (by omega) hholds out (hdecode (sent, out) List.mem_cons_self)
    refine .next (ih h' hplace' (by omega) hdecode.tail ?_)
    intro later hlater
    obtain ⟨c, hc, hindex⟩ := hall later (List.mem_cons_of_mem _ hlater)
    rcases hresult with ⟨-, haccept⟩ | ⟨hlast, haccept, -⟩
    · rw [completions_of_ok haccept] at hc
      exact ⟨c, hc, hindex⟩
    · rw [completions_of_complete haccept] at hc
      rcases List.mem_cons.mp hc with rfl | hc
      · exact absurd hindex (h.index_lt_of_last hplan hlast later hlater).ne
      · exact ⟨c, hc, hindex⟩
  | @again seen sent rest out calls delivered tail ih =>
    obtain ⟨e, receiver', haccept, hreset, hkept, h'⟩ := h.again delivered out
    rw [completions_of_error haccept] at hall
    -- a reset in the middle of a window would lose it
    have hbetween : sent.number = 0 → ∀ following ∈ rest.head?, following.number = 0 := by
      intro hzero following hmem
      by_contra hne
      obtain ⟨c, hc, hindex⟩ := hall following (List.mem_of_mem_head? hmem)
      exact completions_lost tail h' (Or.inr ⟨following, hmem, rfl, hne, hreset hzero⟩) hwrap
        hdecode.tail c hc hindex
    refine .again delivered hbetween (ih h' ?_ hwrap hdecode.tail hall)
    intro following hmem hne
    by_cases hzero : sent.number = 0
    · exact absurd (hbetween hzero following hmem) hne
    · rw [hkept hzero]
      exact hplace following hmem hne

/-! ## Runs that use up the sequence numbers -/

/-- Once the highest number is at least `top`, a window whose last packet has a number up
to `top` does not complete any more. -/
theorem completions_stale (top : ℕ) {j : ℕ} (hkey : L.openKey receiver.security = key)
    (htop : ∃ h ∈ L.highest receiver.security, top ≤ h.toNat)
    (hcalls : ∀ call ∈ calls, ∃ m plan, Carries L key windows call.1 m plan ∧
      (call.1.index = j → call.1.number + 1 = plan.blockCount →
        (UInt64.ofNat m).toNat ≤ top)) :
    ∀ c ∈ completions P receiver calls, c.1 ≠ j := by
  induction calls generalizing receiver with
  | nil =>
    intro c hc
    cases hc
  | cons call calls ih =>
    obtain ⟨sent, out⟩ := call
    obtain ⟨m, plan, hcarries, hlow⟩ := hcalls (sent, out) List.mem_cons_self
    obtain ⟨h, hh, hle⟩ := htop
    have hblock := hcarries.block
    rw [← hkey] at hblock
    obtain ⟨hkey', hhighest, hcomplete⟩ :=
      receiverAccept_number hcarries.bounded hcarries.number_lt hblock out
    have hrest := ih (hkey'.trans hkey) (by
      obtain ⟨h', hh', hle'⟩ := hhighest h hh
      exact ⟨h', hh', hle.trans (UInt64.le_iff_toNat_le.mp hle')⟩)
      fun call hcall => hcalls call (List.mem_cons_of_mem _ hcall)
    cases haccept : receiverAccept P receiver sent.packet out with
    | mk result after =>
      obtain ⟨receiver', out'⟩ := after
      rw [haccept] at hrest hcomplete
      cases result with
      | error e =>
        rw [completions_of_error haccept]
        exact hrest
      | ok accepted =>
        cases accepted with
        | ok =>
          rw [completions_of_ok haccept]
          exact hrest
        | complete =>
          rw [completions_of_complete haccept]
          intro c hc
          rcases List.mem_cons.mp hc with rfl | hc
          · intro hindex
            obtain ⟨hlast, hfresh⟩ := hcomplete rfl
            have hlt := UInt64.lt_iff_toNat_lt.mp (hfresh h hh)
            have hbound := hlow hindex hlast
            omega
          · exact hrest c hc

omit [CDouble D] [CFloat F D] in
/-- Where the numbers start again, the last packet of the window at hand has a low one. -/
theorem Tracks.low_of_wrapped {sent : SentPacket}
    (h : Tracks L key windows receiver seen (sent :: rest) n) (hn : n = 2 ^ 64)
    (hcalls : ∀ call ∈ calls, call.1 ∈ seen ∨ call.1 ∈ sent :: rest) :
    ∀ call ∈ calls, ∃ m plan, Carries L key windows call.1 m plan ∧
      (call.1.index = sent.index → call.1.number + 1 = plan.blockCount →
        (UInt64.ofNat m).toNat ≤ maxRepresentation) := by
  have hmax : maxRepresentation = 1088 := rfl
  obtain ⟨plan₀, hsent⟩ : ∃ plan, Carries L key windows sent n plan := by
    cases h.stream with
    | cons hcarries hfollows htail => exact ⟨_, hcarries⟩
  have hbound := hsent.number_lt
  intro call hcall
  rcases hcalls call hcall with hmem | hmem
  · -- the packets of this window that were delivered are not its last
    obtain ⟨m, plan, hcarries, -, -⟩ := h.stale call.1 hmem
    refine ⟨m, plan, hcarries, fun hindex hlast => ?_⟩
    have hlt := h.earlier call.1 hmem sent List.mem_cons_self hindex
    have hsame := hcarries.unique hsent hindex
    subst hsame
    omega
  · rcases List.mem_cons.mp hmem with hsame | hmem
    · rw [hsame]
      refine ⟨n, plan₀, hsent, fun _ _ => ?_⟩
      rw [UInt64.toNat_ofNat', hn]
      omega
    · obtain ⟨m, plan, hcarries, -, hposition⟩ := h.stream.mem hmem
      refine ⟨m, plan, hcarries, fun hindex hlast => ?_⟩
      obtain ⟨-, hsum⟩ := hposition hindex
      have hcount := hcarries.bounded.blockCount_le
      have hlength := hcarries.bounded.length_le
      rw [UInt64.toNat_ofNat']
      omega

/-- In a run that uses up the sequence numbers, the window at which they start again
does not complete. -/
theorem completions_exhausted (hcalls : WithCopies seen rest calls)
    (h : Tracks L key windows receiver seen rest n) (hlong : 2 ^ 64 < n + rest.length)
    (hdecode : Decodes windows calls) :
    ∃ sent ∈ rest, ∀ c ∈ completions P receiver calls, c.1 ≠ sent.index := by
  induction hcalls generalizing receiver n with
  | done =>
    have hle := h.le
    rw [List.length_nil] at hlong
    omega
  | @next seen sent rest out calls tail ih =>
    rw [List.length_cons] at hlong
    rcases Nat.lt_or_eq_of_le h.le with hn | hn
    · by_cases hreset : sent.number ≠ 0 ∧ receiver.nextBlock = 0
      · obtain ⟨haccept, h'⟩ := h.dropped hn hreset.1 hreset.2 out
        obtain ⟨lost, hmem, hnone⟩ := ih h' (by omega) hdecode.tail
        rw [completions_of_error haccept]
        exact ⟨lost, List.mem_cons_of_mem _ hmem, hnone⟩
      · obtain ⟨plan, receiver', out', hplan, h', -, hresult⟩ :=
          h.accepted hn (h.holds_of_not_reset hreset) out (hdecode (sent, out) List.mem_cons_self)
        obtain ⟨lost, hmem, hnone⟩ := ih h' (by omega) hdecode.tail
        refine ⟨lost, List.mem_cons_of_mem _ hmem, ?_⟩
        rcases hresult with ⟨-, haccept⟩ | ⟨hlast, haccept, -⟩
        · rw [completions_of_ok haccept]
          exact hnone
        · rw [completions_of_complete haccept]
          intro c hc
          rcases List.mem_cons.mp hc with rfl | hc
          · exact (h.index_lt_of_last hplan hlast lost hmem).ne
          · exact hnone c hc
    · refine ⟨sent, List.mem_cons_self, completions_stale maxRepresentation h.openKey ?_
        (h.low_of_wrapped hn (WithCopies.next tail).mem)⟩
      obtain ⟨highest, hhighest, hle⟩ := h.started (h.begun hn)
      have hmax : maxRepresentation = 1088 := rfl
      exact ⟨highest, hhighest, by omega⟩
  | @again seen sent rest out calls delivered tail ih =>
    obtain ⟨e, receiver', haccept, -, -, h'⟩ := h.again delivered out
    rw [completions_of_error haccept]
    exact ih h' hlong hdecode.tail

end Runs

/-! ## Whole runs -/

def representations : ℕ → List SentWindow → List (ℕ × Bytes)
  | _, [] => []
  | i, window :: windows => (i, window.plan.representation) :: representations (i + 1) windows

theorem le_of_mem_representations {i : ℕ} {windows : List SentWindow} {c : ℕ × Bytes}
    (h : c ∈ representations i windows) : i ≤ c.1 := by
  induction windows generalizing i with
  | nil => cases h
  | cons window windows ih =>
    rcases List.mem_cons.mp h with rfl | h
    · exact Nat.le_refl _
    · exact (Nat.le_succ i).trans (ih h)

theorem filter_representations (first : ℕ) {i : ℕ} {windows : List SentWindow}
    {window : SentWindow} (h : windows[i]? = some window) :
    (representations first windows).filter (·.1 = first + i) =
      [(first + i, window.plan.representation)] := by
  induction windows generalizing first i with
  | nil => cases h
  | cons head windows ih =>
    rw [representations]
    cases i with
    | zero =>
      cases h
      rw [List.filter_cons_of_pos (by simp)]
      congr 1
      apply List.filter_eq_nil_iff.mpr
      intro c hc
      have hle := le_of_mem_representations hc
      rw [decide_eq_true_iff]
      omega
    | succ i =>
      have hrest := ih (first + 1) h
      have hsum : first + 1 + i = first + (i + 1) := by omega
      rw [hsum] at hrest
      rw [List.filter_cons_of_neg (by simp)]
      exact hrest

theorem filterMap_numberPackets {windows : List SentWindow} {index number : ℕ}
    {plan : TransferPlan} {packets : List Bytes}
    (hplan : (windows[index]?).map (·.plan) = some plan)
    (hcount : number + packets.length = plan.blockCount) (hne : packets ≠ []) :
    (numberPackets index number packets).filterMap (completionDue windows) =
      [(index, plan.representation)] := by
  induction packets generalizing number with
  | nil => exact absurd rfl hne
  | cons packet packets ih =>
    rw [List.length_cons] at hcount
    rw [numberPackets]
    cases packets with
    | nil =>
      rw [List.filterMap_cons_some (completionDue_of_last hplan hcount)]
      rfl
    | cons packet' packets =>
      rw [List.length_cons] at hcount
      rw [List.filterMap_cons_none (completionDue_of_more hplan (by simp only; omega))]
      exact ih (by rw [List.length_cons]; omega) (List.cons_ne_nil _ _)

theorem filterMap_sentPackets (before : List SentWindow) {windows : List SentWindow}
    (h : ∀ window ∈ windows, window.packets.length = window.plan.blockCount ∧
      window.packets ≠ []) :
    (sentPackets before.length windows).filterMap (completionDue (before ++ windows)) =
      representations before.length windows := by
  induction windows generalizing before with
  | nil => rfl
  | cons window windows ih =>
    obtain ⟨hlength, hne⟩ := h window List.mem_cons_self
    have hrest := ih (before ++ [window]) fun other hother => h other (List.mem_cons_of_mem _ hother)
    rw [List.append_assoc, List.singleton_append, List.length_append, List.length_singleton]
      at hrest
    have hplan : ((before ++ window :: windows)[before.length]?).map (·.plan) =
        some window.plan := by
      rw [List.getElem?_append_right (Nat.le_refl _), Nat.sub_self]
      rfl
    rw [sentPackets, List.filterMap_append, hrest,
      filterMap_numberPackets hplan (by rw [Nat.zero_add]; exact hlength) hne]
    rfl

/-- Every window of a run completes exactly once, with its representation, under every
delivery with copies: if and only if no copy of a block 0 comes while a window is part-way
and the run does not use up the sequence numbers. -/
theorem retransmission_tolerated_iff (L : RecordLayer P) (pipeline : Pipeline D σ)
    (windows : List SentWindow) (receiver : Receiver σ)
    (calls : List (SentPacket × DecodeTarget F D)) (hsends : Sends F P pipeline windows)
    (hpeer : L.openKey receiver.security = L.sealKey pipeline.security)
    (hfresh : ∀ h ∈ L.highest receiver.security, h < L.sequence pipeline.security)
    (hcalls : WithCopies [] (sentPackets 0 windows) calls) (hdecode : Decodes windows calls) :
    CompletesOnce windows (completions P receiver calls) ↔
      Undisturbed [] (sentPackets 0 windows) calls ∧
        (L.sequence pipeline.security).toNat + (sentPackets 0 windows).length ≤ 2 ^ 64 := by
  have hstream := hsends.stream L [] (n := (L.sequence pipeline.security).toNat)
    (by rw [UInt64.ofNat_toNat])
  rw [List.nil_append, List.length_nil] at hstream
  have hwhole := hsends.whole L
  have hhead : ∀ following ∈ (sentPackets 0 windows).head?, following.number = 0 :=
    head?_sentPackets fun window hwindow => (hwhole window hwindow).2
  have hlt := (L.sequence pipeline.security).toNat_lt
  have htracks : Tracks L (L.sealKey pipeline.security) windows receiver []
      (sentPackets 0 windows) (L.sequence pipeline.security).toNat := by
    refine ⟨hpeer, hstream, hlt.le, fun hmax => absurd hmax hlt.ne, ?_, ?_, ?_, ?_, ?_, ?_⟩
    · intro sent hsent
      cases hsent
    · intro h hh
      exact UInt64.lt_iff_toNat_lt.mp (hfresh h hh)
    · intro sent hsent
      cases hsent
    · intro following hmem hne
      exact absurd (hhead following hmem) hne
    · intro following hmem hne
      exact absurd (hhead following hmem) hne
    · intro hne
      exact absurd rfl hne
  have hplace : ∀ following ∈ (sentPackets 0 windows).head?, following.number ≠ 0 →
      HoldsBefore windows receiver following :=
    fun following hmem hne => absurd (hhead following hmem) hne
  constructor
  · intro honce
    -- every packet of the run belongs to a window that completes
    have hall : ∀ sent ∈ sentPackets 0 windows,
        ∃ c ∈ completions P receiver calls, c.1 = sent.index := by
      intro sent hsent
      obtain ⟨window, hwindow⟩ := hstream.window_of_mem hsent
      have hfilter := honce sent.index window hwindow
      have hmem : (sent.index, window.plan.representation) ∈
          (completions P receiver calls).filter (·.1 = sent.index) := by
        rw [hfilter]
        exact List.mem_singleton_self _
      exact ⟨_, (List.mem_filter.mp hmem).1, rfl⟩
    have hwrap : (L.sequence pipeline.security).toNat + (sentPackets 0 windows).length ≤
        2 ^ 64 := by
      by_contra hlong
      obtain ⟨sent, hsent, hnone⟩ :=
        completions_exhausted hcalls htracks (Nat.lt_of_not_le hlong) hdecode
      obtain ⟨c, hc, hindex⟩ := hall sent hsent
      exact hnone c hc hindex
    exact ⟨undisturbed_of_completions hcalls htracks hplace hwrap hdecode hall, hwrap⟩
  · rintro ⟨hundisturbed, hwrap⟩
    have hdue := completions_undisturbed hundisturbed htracks hplace hwrap hdecode
    have hlist := filterMap_sentPackets [] hwhole
    rw [List.nil_append, List.length_nil] at hlist
    rw [hdue, hlist]
    intro i window hwindow
    have hfilter := filter_representations 0 hwindow
    rw [Nat.zero_add] at hfilter
    exact hfilter

def representationOf : Outcome (EncodedWindow D) → Bytes
  | .ok window => window.representation
  | .error _ => []

def recordedBytes : Bytes :=
  representationOf (pipelineEncode (initialPipeline twoBlocks) smallWindow (fun _ => 1)).1

/-- The two packets of the recorded call, with a copy of the first one between them. -/
def copiedCalls : List (SentPacket × DecodeTarget Single ℚ) :=
  [(⟨0, 0, firstPacket⟩, smallTarget), (⟨0, 0, firstPacket⟩, smallTarget),
    (⟨0, 1, secondPacket⟩, smallTarget)]

/-- The recorded call is a run of one window, whose representation is decoded. -/
theorem recorded_run :
    ∃ plan, Sends Single testProvider (initialPipeline twoBlocks)
        [⟨plan, [firstPacket, secondPacket]⟩] ∧
      Decodes [⟨plan, [firstPacket, secondPacket]⟩] copiedCalls := by
  obtain ⟨stats, pipeline', hcall⟩ := recordedCall_eq
  rw [recordedCall] at hcall
  obtain ⟨window, plan, hplanned, -⟩ := pipelineProcess_recording testLayer hcall
  obtain ⟨-, hrep, -⟩ := hplanned.bounded
  have hbytes : recordedBytes = window.representation :=
    congrArg representationOf hplanned.encoded
  have hok : (codecDecode recordedBytes smallTarget).1.toBool = true := by decide +kernel
  have hdecode : (codecDecode recordedBytes smallTarget).1 = .ok () := by
    generalize (codecDecode recordedBytes smallTarget).1 = r at hok ⊢
    cases r with
    | error e => cases hok
    | ok u => rfl
  refine ⟨plan, .cons hplanned hcall .nil, ?_⟩
  intro call hmem sent hsent
  have hout : call.2 = smallTarget := by
    simp only [copiedCalls, List.mem_cons, List.not_mem_nil, or_false] at hmem
    rcases hmem with rfl | rfl | rfl
    · rfl
    · rfl
    · rfl
  rw [List.mem_singleton.mp hsent, hout, hrep, ← hbytes]
  exact hdecode

theorem withCopies_copiedCalls (plan : TransferPlan) :
    WithCopies [] (sentPackets 0 [⟨plan, [firstPacket, secondPacket]⟩]) copiedCalls :=
  .next (.again List.mem_cons_self (.next .done))

theorem retransmission_tolerated_iff_copied :
    ∃ plan, CompletesOnce [⟨plan, [firstPacket, secondPacket]⟩]
        (completions testProvider (receiverInit (securityTestPair 7).2) copiedCalls) ↔
      Undisturbed [] (sentPackets 0 [⟨plan, [firstPacket, secondPacket]⟩]) copiedCalls ∧
        (initialPipeline twoBlocks).security.txSequence.toNat +
          (sentPackets 0 [⟨plan, [firstPacket, secondPacket]⟩]).length ≤ 2 ^ 64 := by
  obtain ⟨plan, hsends, hdecode⟩ := recorded_run
  have hfresh : ∀ h ∈ testLayer.highest (receiverInit (securityTestPair 7).2).security,
      h < testLayer.sequence (initialPipeline twoBlocks).security := by
    intro h hh
    cases hh
  exact ⟨plan, retransmission_tolerated_iff testLayer (initialPipeline twoBlocks)
    [⟨plan, [firstPacket, secondPacket]⟩] (receiverInit (securityTestPair 7).2) copiedCalls hsends
    rfl hfresh (withCopies_copiedCalls plan) hdecode⟩

/-- A copy of block 0 between the two packets of a window loses it: no call returns
`ADAPTIVE_COMPLETE`. -/
theorem copied_block_loses_window :
    ∃ plan, Sends Single testProvider (initialPipeline twoBlocks)
        [⟨plan, [firstPacket, secondPacket]⟩] ∧
      WithCopies [] (sentPackets 0 [⟨plan, [firstPacket, secondPacket]⟩]) copiedCalls ∧
      Decodes [⟨plan, [firstPacket, secondPacket]⟩] copiedCalls ∧
      completions testProvider (receiverInit (securityTestPair 7).2) copiedCalls = [] ∧
      ¬CompletesOnce [⟨plan, [firstPacket, secondPacket]⟩]
        (completions testProvider (receiverInit (securityTestPair 7).2) copiedCalls) := by
  obtain ⟨plan, hsends, hdecode⟩ := recorded_run
  have hnone : completions testProvider (receiverInit (securityTestPair 7).2) copiedCalls = [] := by
    decide +kernel
  refine ⟨plan, hsends, withCopies_copiedCalls plan, hdecode, hnone, ?_⟩
  intro honce
  have hfilter := honce 0 _ rfl
  rw [hnone] at hfilter
  cases hfilter

end AdaptiveLowpan
