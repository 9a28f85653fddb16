import AdaptiveLowpan.Security

/-! # Record layers and what they deliver

A record layer seals plaintexts under increasing sequence numbers and opens a record
only above the highest number it has accepted. The laws below are all that the
components above it rely on; `Delivery` runs the two ends against each other under
every order of their calls. -/

namespace AdaptiveLowpan
open ByteWords CheckedMemory

variable {σ : Type} {P : SecurityProvider σ}

/-- The laws of a record layer over its context. `IsRecord` is the relation between
a key and what was sealed under it. -/
structure RecordLayer (P : SecurityProvider σ) where
  Key : Type
  sealKey : σ → Key
  openKey : σ → Key
  /-- The number of the next record. -/
  sequence : σ → UInt64
  /-- The highest number accepted so far. -/
  highest : σ → Option UInt64
  IsRecord : Key → Bytes → Bytes → Bytes → Prop
  seal_ok : ∀ {c c' plaintext aad capacity record},
    P.sealFn c plaintext aad capacity = (.ok record, c') →
      IsRecord (sealKey c) plaintext aad record ∧ recordSequence record = sequence c ∧
        sequence c' = sequence c + 1 ∧ record.length = plaintext.length + P.overhead
  seal_keeps : ∀ {c c' plaintext aad capacity r}, P.sealFn c plaintext aad capacity = (r, c') →
    sealKey c' = sealKey c ∧ openKey c' = openKey c ∧ highest c' = highest c
  open_keeps : ∀ {c c' record aad capacity r}, P.openFn c record aad capacity = (r, c') →
    sealKey c' = sealKey c ∧ openKey c' = openKey c ∧ sequence c' = sequence c
  open_fresh : ∀ {c plaintext aad record capacity},
    IsRecord (openKey c) plaintext aad record → plaintext.length ≤ capacity →
    (∀ h ∈ highest c, h < recordSequence record) →
      ∃ c', P.openFn c record aad capacity = (.ok plaintext, c') ∧
        highest c' = some (recordSequence record)
  open_replay : ∀ {c plaintext aad record capacity h},
    IsRecord (openKey c) plaintext aad record → plaintext.length ≤ capacity →
    h ∈ highest c → recordSequence record ≤ h → P.openFn c record aad capacity = (fail .replay, c)
  open_error : ∀ {c c' record aad capacity e},
    P.openFn c record aad capacity = (.error e, c') → c' = c

theorem RecordLayer.open_ok (L : RecordLayer P) {c c' : σ} {plaintext opened aad record : Bytes}
    {capacity : ℕ} (hrecord : L.IsRecord (L.openKey c) plaintext aad record)
    (hroom : plaintext.length ≤ capacity)
    (h : P.openFn c record aad capacity = (.ok opened, c')) :
    L.openKey c' = L.openKey c ∧ L.highest c' = some (recordSequence record) ∧
      ∀ top ∈ L.highest c, top < recordSequence record := by
  obtain ⟨-, hkey, -⟩ := L.open_keeps h
  have hfresh : ∀ top ∈ L.highest c, top < recordSequence record := by
    intro top htop
    by_contra hle
    have hreplay := L.open_replay hrecord hroom htop (UInt64.not_lt.mp hle)
    rw [h] at hreplay
    cases hreplay
  obtain ⟨c₁, hopen, hhighest⟩ := L.open_fresh hrecord hroom hfresh
  rw [h] at hopen
  cases hopen
  exact ⟨hkey, hhighest, hfresh⟩

/-- How many numbers the client is behind the highest one that the server has accepted. -/
def RecordLayer.gap (L : RecordLayer P) (client server : σ) : ℕ :=
  match L.highest server with
  | none => 0
  | some h => h.toNat + 1 - (L.sequence client).toNat

theorem RecordLayer.gap_eq_zero {L : RecordLayer P} {client server : σ} :
    L.gap client server = 0 ↔ ∀ h ∈ L.highest server, h < L.sequence client := by
  rw [gap]
  cases L.highest server with
  | none => simp
  | some h =>
    simp only [Option.mem_def, Option.some.injEq, forall_eq', UInt64.lt_iff_toNat_lt]
    omega

/-- A record with the plaintext and the associated data it was sealed for. -/
structure Sealed where
  plaintext : Bytes
  aad : Bytes
  record : Bytes
  deriving DecidableEq

/-! ## The two ends -/

/-- The contexts of the two ends, the records that the client has sealed, and the
sequence numbers that the server has accepted. -/
structure Delivery (σ : Type) where
  client : σ
  server : σ
  sealed : List Sealed
  accepted : List UInt64

/-- The calls on the two ends. The server is given records of the client with their
own associated data and enough room, any number of times and in any order; every
other call of its open fails. -/
inductive Delivery.Step (P : SecurityProvider σ) : Delivery σ → Delivery σ → Prop where
  | sealed {s client plaintext aad capacity record}
      (h : P.sealFn s.client plaintext aad capacity = (.ok record, client)) :
      Step P s { s with client, sealed := s.sealed ++ [⟨plaintext, aad, record⟩] }
  | sealFailed {s client plaintext aad capacity e}
      (h : P.sealFn s.client plaintext aad capacity = (.error e, client)) :
      Step P s { s with client }
  | accepted {s server entry capacity plaintext} (hmem : entry ∈ s.sealed)
      (hroom : entry.plaintext.length ≤ capacity)
      (h : P.openFn s.server entry.record entry.aad capacity = (.ok plaintext, server)) :
      Step P s { s with server, accepted := s.accepted ++ [recordSequence entry.record] }
  | openFailed {s server record aad capacity e}
      (h : P.openFn s.server record aad capacity = (.error e, server)) :
      Step P s { s with server }
  | reply {s server plaintext aad capacity r}
      (h : P.sealFn s.server plaintext aad capacity = (r, server)) : Step P s { s with server }
  | replyOpened {s client record aad capacity r}
      (h : P.openFn s.client record aad capacity = (r, client)) : Step P s { s with client }

inductive Delivery.Reachable (P : SecurityProvider σ) (client server : σ) : Delivery σ → Prop where
  | start : Reachable P client server ⟨client, server, [], []⟩
  | next {s t} : Reachable P client server s → Delivery.Step P s t → Reachable P client server t

/-- The keys still match, every sealed record is one of them, and the server's
highest number is the largest accepted one. -/
structure Delivery.Invariant (L : RecordLayer P) (s : Delivery σ) : Prop where
  keys : L.sealKey s.client = L.openKey s.server
  sealed : ∀ entry ∈ s.sealed,
    L.IsRecord (L.openKey s.server) entry.plaintext entry.aad entry.record
  highest_mem : ∀ h ∈ L.highest s.server, h ∈ s.accepted
  accepted_le : ∀ q ∈ s.accepted, ∃ h ∈ L.highest s.server, q ≤ h

/-- A presented record is opened exactly when its number is above every accepted
one, and rejected as a replay otherwise. -/
theorem RecordLayer.open_sealed (L : RecordLayer P) {s : Delivery σ} (hs : s.Invariant L)
    {entry : Sealed} (hmem : entry ∈ s.sealed) {capacity : ℕ}
    (hroom : entry.plaintext.length ≤ capacity) :
    ((∀ q ∈ s.accepted, q < recordSequence entry.record) ∧
      ∃ c, P.openFn s.server entry.record entry.aad capacity = (.ok entry.plaintext, c) ∧
        L.highest c = some (recordSequence entry.record)) ∨
    (¬(∀ q ∈ s.accepted, q < recordSequence entry.record) ∧
      P.openFn s.server entry.record entry.aad capacity = (fail .replay, s.server)) := by
  by_cases hfresh : ∀ q ∈ s.accepted, q < recordSequence entry.record
  · left
    refine ⟨hfresh, L.open_fresh (hs.sealed entry hmem) hroom ?_⟩
    intro h hh
    exact hfresh h (hs.highest_mem h hh)
  · right
    refine ⟨hfresh, ?_⟩
    simp only [not_forall, UInt64.not_lt] at hfresh
    obtain ⟨q, hq, hle⟩ := hfresh
    obtain ⟨h, hh, hqh⟩ := hs.accepted_le q hq
    exact L.open_replay (hs.sealed entry hmem) hroom hh (UInt64.le_trans hle hqh)

theorem Delivery.Step.invariant (L : RecordLayer P) {s t : Delivery σ} (h : Delivery.Step P s t)
    (hs : s.Invariant L) : t.Invariant L := by
  cases h with
  | sealed h =>
    obtain ⟨hrecord, -, -, -⟩ := L.seal_ok h
    obtain ⟨hseal, -, -⟩ := L.seal_keeps h
    refine ⟨hseal.trans hs.keys, ?_, hs.highest_mem, hs.accepted_le⟩
    intro entry hentry
    rcases List.mem_append.mp hentry with hentry | hentry
    · exact hs.sealed entry hentry
    · rw [List.mem_singleton.mp hentry, ← hs.keys]
      exact hrecord
  | sealFailed h =>
    obtain ⟨hseal, -, -⟩ := L.seal_keeps h
    exact ⟨hseal.trans hs.keys, hs.sealed, hs.highest_mem, hs.accepted_le⟩
  | @accepted server entry capacity plaintext hmem hroom h =>
    obtain ⟨hopen, hhighest, hfresh⟩ := L.open_ok (hs.sealed entry hmem) hroom h
    refine ⟨hs.keys.trans hopen.symm, ?_, ?_, ?_⟩
    · intro entry' hentry'
      simp only
      rw [hopen]
      exact hs.sealed entry' hentry'
    · intro q hq
      simp only [hhighest, Option.mem_def, Option.some.injEq] at hq
      simp [hq]
    · intro q hq
      refine ⟨recordSequence entry.record, hhighest, ?_⟩
      rcases List.mem_append.mp hq with hq | hq
      · obtain ⟨top, htop, hle⟩ := hs.accepted_le q hq
        exact UInt64.le_trans hle (UInt64.le_of_lt (hfresh top htop))
      · rw [List.mem_singleton.mp hq]
        exact UInt64.le_refl _
  | openFailed h =>
    obtain rfl := L.open_error h
    exact hs
  | reply h =>
    obtain ⟨-, hopen, hhigh⟩ := L.seal_keeps h
    refine ⟨hs.keys.trans hopen.symm, ?_, ?_, ?_⟩
    · intro entry hentry
      simp only
      rw [hopen]
      exact hs.sealed entry hentry
    · simp only
      rw [hhigh]
      exact hs.highest_mem
    · simp only
      rw [hhigh]
      exact hs.accepted_le
  | replyOpened h =>
    obtain ⟨hseal, -, -⟩ := L.open_keeps h
    exact ⟨hseal.trans hs.keys, hs.sealed, hs.highest_mem, hs.accepted_le⟩

theorem Delivery.Reachable.invariant (L : RecordLayer P) {client server : σ} {s : Delivery σ}
    (hkeys : L.sealKey client = L.openKey server) (hnone : L.highest server = none)
    (h : Delivery.Reachable P client server s) : s.Invariant L := by
  induction h with
  | start => exact ⟨hkeys, by simp, by simp [hnone], by simp⟩
  | next _ step ih => exact step.invariant L ih

/-- After every run, every sealed record that is presented with its own associated
data and enough room is opened to its plaintext if and only if its number is above
every accepted one; else it is a replay. -/
def DeliversInOrder (P : SecurityProvider σ) (client server : σ) : Prop :=
  ∀ s, Delivery.Reachable P client server s →
    ∀ entry ∈ s.sealed, ∀ capacity, entry.plaintext.length ≤ capacity →
      ((P.openFn s.server entry.record entry.aad capacity).1 = .ok entry.plaintext ↔
        ∀ q ∈ s.accepted, q < recordSequence entry.record) ∧
      (¬(∀ q ∈ s.accepted, q < recordSequence entry.record) →
        (P.openFn s.server entry.record entry.aad capacity).1 = fail .replay)

theorem RecordLayer.deliversInOrder (L : RecordLayer P) {client server : σ}
    (hkeys : L.sealKey client = L.openKey server) (hnone : L.highest server = none) :
    DeliversInOrder P client server := by
  intro s hs entry hmem capacity hroom
  have hinv := hs.invariant L hkeys hnone
  rcases L.open_sealed hinv hmem hroom with ⟨hfresh, c, hc, -⟩ | ⟨hstale, hreplay⟩
  · rw [hc]
    exact ⟨⟨fun _ => hfresh, fun _ => rfl⟩, fun hstale => absurd hfresh hstale⟩
  · rw [hreplay]
    refine ⟨⟨?_, fun hfresh => absurd hfresh hstale⟩, fun _ => rfl⟩
    intro h
    exact absurd h fail_ne_ok

def Delivery.answers (P : SecurityProvider σ) (s : Delivery σ) : List (Outcome Bytes) :=
  s.sealed.map fun entry =>
    (P.openFn s.server entry.record entry.aad entry.plaintext.length).1

theorem DeliversInOrder.answers {client server : σ} (h : DeliversInOrder P client server)
    {s : Delivery σ} (hs : Delivery.Reachable P client server s) :
    s.answers P = s.sealed.map fun entry =>
      if s.accepted.all (· < recordSequence entry.record) then .ok entry.plaintext
      else fail .replay := by
  refine List.map_congr_left ?_
  intro entry hmem
  obtain ⟨hopened, hreplay⟩ := h s hs entry hmem entry.plaintext.length (le_refl _)
  have hall : s.accepted.all (· < recordSequence entry.record) = true ↔
      ∀ q ∈ s.accepted, q < recordSequence entry.record := by
    simp only [List.all_eq_true, decide_eq_true_eq]
  split
  · rename_i hfresh
    exact hopened.mpr (hall.mp hfresh)
  · rename_i hstale
    exact hreplay (mt hall.mpr hstale)

end AdaptiveLowpan
