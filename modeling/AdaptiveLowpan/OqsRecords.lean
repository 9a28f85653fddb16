import AdaptiveLowpan.RecordFrames

/-! # The AES-256-GCM provider as a record layer, and what both providers deliver

AES-256-GCM is a parameter that decrypts what it encrypted. The provider around it
is then a record layer, and every record layer delivers the in-order subsequence. -/

namespace AdaptiveLowpan
open ByteWords CheckedMemory

/-! ## One call -/

theorem oqsSeal_eq_ok {gcm : AesGcm} {oqs oqs' : OqsContext} {plaintext aad record : Bytes}
    {capacity : ℕ} (h : oqsSeal gcm oqs plaintext aad capacity = (.ok record, oqs')) :
    plaintext.length ≤ intMax ∧ aad.length ≤ intMax ∧
      oqs' = { oqs with txSequence := oqs.txSequence + 1 } ∧
      ∃ ciphertext tag, gcm.encrypt oqs.txKey (makeNonce oqs.txNonceBase oqs.txSequence)
          (recordHeader oqs.txSequence ++ aad) plaintext = some (ciphertext, tag) ∧
        record = frame oqs.txSequence ciphertext tag := by
  rw [oqsSeal] at h
  split at h
  · simp [fail] at h
  rename_i hargs
  simp only at h
  split at h
  · simp [fail] at h
  · rename_i ciphertext tag hencrypt
    cases h
    exact ⟨by omega, by omega, rfl, ciphertext, tag, hencrypt, rfl⟩

theorem oqsSeal_keeps {gcm : AesGcm} {oqs oqs' : OqsContext} {plaintext aad : Bytes}
    {capacity : ℕ} {r : Outcome Bytes} (h : oqsSeal gcm oqs plaintext aad capacity = (r, oqs')) :
    ∃ sequence, oqs' = { oqs with txSequence := sequence } := by
  rw [oqsSeal] at h
  split at h
  · cases h
    exact ⟨oqs.txSequence, rfl⟩
  simp only at h
  split at h
  · cases h
    exact ⟨_, rfl⟩
  · cases h
    exact ⟨_, rfl⟩

theorem oqsOpen_error {gcm : AesGcm} {oqs oqs' : OqsContext} {record aad : Bytes} {capacity : ℕ}
    {e : Stop Failure} (h : oqsOpen gcm oqs record aad capacity = (.error e, oqs')) :
    oqs' = oqs := by
  rw [oqsOpen] at h
  split at h
  · cases h
    rfl
  simp only at h
  split at h
  · cases h
    rfl
  split at h
  · cases h
    rfl
  split at h
  · cases h
    rfl
  · cases h

theorem oqsOpen_eq_ok {gcm : AesGcm} {oqs oqs' : OqsContext} {record aad plaintext : Bytes}
    {capacity : ℕ} (h : oqsOpen gcm oqs record aad capacity = (.ok plaintext, oqs')) :
    oqs' = { oqs with rxHighest := recordSequence record, rxInitialized := true } := by
  rw [oqsOpen] at h
  split at h
  · simp [fail] at h
  simp only at h
  split at h
  · simp [fail] at h
  split at h
  · simp [fail] at h
  split at h
  · simp [fail] at h
  · cases h
    rfl

/-- What `oqs_open` does with a frame whose ciphertext decrypts under its key. -/
theorem oqsOpen_frame {gcm : AesGcm} (oqs : OqsContext) (sequence : UInt64)
    {plaintext aad ciphertext tag : Bytes} {capacity : ℕ} (htag : tag.length = 16)
    (hcipher : ciphertext.length = plaintext.length) (haad : aad.length ≤ intMax)
    (hplain : plaintext.length ≤ intMax) (hroom : plaintext.length ≤ capacity)
    (hdecrypt : gcm.decrypt oqs.rxKey (makeNonce oqs.rxNonceBase sequence)
      (recordHeader sequence ++ aad) ciphertext tag = some plaintext) :
    oqsOpen gcm oqs (frame sequence ciphertext tag) aad capacity =
      if oqs.rxInitialized ∧ sequence ≤ oqs.rxHighest then (fail .replay, oqs)
      else (.ok plaintext, { oqs with rxHighest := sequence, rxInitialized := true }) := by
  have hlen := length_frame sequence ciphertext htag
  have hsub : (frame sequence ciphertext tag).length - securityOverhead = ciphertext.length := by
    omega
  rw [oqsOpen, if_neg (by
    rw [not_or, not_or, hlen]
    exact ⟨by omega, not_not.mpr rfl, by omega⟩)]
  simp only [recordSequence_frame, hsub]
  by_cases hreplay : oqs.rxInitialized = true ∧ sequence ≤ oqs.rxHighest
  · rw [if_pos hreplay, if_pos hreplay]
  · rw [if_neg hreplay, if_neg hreplay, if_neg (by omega)]
    rw [show 1 + securitySequenceBytes = 9 from rfl, take_frame, ciphertext_frame, tag_frame,
      hdecrypt]

/-! ## The layer -/

def OqsContext.highest (oqs : OqsContext) : Option UInt64 :=
  if oqs.rxInitialized then some oqs.rxHighest else none

theorem OqsContext.highest_eq_some {oqs : OqsContext} {h : UInt64} (hh : h ∈ oqs.highest) :
    oqs.rxInitialized = true ∧ oqs.rxHighest = h := by
  rw [OqsContext.highest] at hh
  split at hh
  · rename_i hinit
    exact ⟨hinit, by simpa using hh⟩
  · simp at hh

/-- What the provider seals: a frame around what AES-256-GCM encrypts under the
nonce of its number, with the header in front of the associated data. -/
structure OqsRecord (gcm : AesGcm) (key : Bytes) (base : NonceBase)
    (plaintext aad record : Bytes) : Prop where
  plaintext_le : plaintext.length ≤ intMax
  aad_le : aad.length ≤ intMax
  framed : ∃ sequence ciphertext tag, gcm.encrypt key (makeNonce base sequence)
      (recordHeader sequence ++ aad) plaintext = some (ciphertext, tag) ∧
    record = frame sequence ciphertext tag

/-- The AES-256-GCM provider is a record layer. -/
def oqsLayer (gcm : AesGcm) (hgcm : gcm.Correct) : RecordLayer (oqsProvider gcm) where
  Key := Bytes × NonceBase
  sealKey := fun oqs => (oqs.txKey, oqs.txNonceBase)
  openKey := fun oqs => (oqs.rxKey, oqs.rxNonceBase)
  sequence := OqsContext.txSequence
  highest := OqsContext.highest
  IsRecord := fun key => OqsRecord gcm key.1 key.2
  seal_ok := by
    intro c c' plaintext aad capacity record h
    obtain ⟨hplain, haad, rfl, ciphertext, tag, hencrypt, rfl⟩ := oqsSeal_eq_ok h
    obtain ⟨hcipher, htag⟩ := hgcm.lengths _ _ _ _ _ _ hencrypt
    refine ⟨⟨hplain, haad, c.txSequence, ciphertext, tag, hencrypt, rfl⟩,
      recordSequence_frame _ _, rfl, ?_⟩
    rw [length_frame _ _ htag, hcipher]
    rfl
  seal_keeps := by
    intro c c' plaintext aad capacity r h
    obtain ⟨sequence, rfl⟩ := oqsSeal_keeps h
    exact ⟨rfl, rfl, rfl⟩
  open_keeps := by
    intro c c' record aad capacity r h
    cases r with
    | error e =>
      obtain rfl := oqsOpen_error h
      exact ⟨rfl, rfl, rfl⟩
    | ok plaintext =>
      obtain rfl := oqsOpen_eq_ok h
      exact ⟨rfl, rfl, rfl⟩
  open_fresh := by
    rintro c plaintext aad record capacity ⟨hplain, haad, sequence, ciphertext, tag, hencrypt, rfl⟩
      hroom hfresh
    obtain ⟨hcipher, htag⟩ := hgcm.lengths _ _ _ _ _ _ hencrypt
    have hopen := oqsOpen_frame c sequence htag hcipher haad hplain hroom
      (hgcm.decrypt_encrypt _ _ _ _ _ _ hencrypt)
    rw [recordSequence_frame] at hfresh
    have hnew : ¬(c.rxInitialized = true ∧ sequence ≤ c.rxHighest) := by
      rintro ⟨hinit, hle⟩
      have hlt := hfresh c.rxHighest (by simp [OqsContext.highest, hinit])
      exact UInt64.not_lt.mpr hle hlt
    rw [if_neg hnew] at hopen
    refine ⟨_, hopen, ?_⟩
    rw [recordSequence_frame]
    rfl
  open_replay := by
    rintro c plaintext aad record capacity h
      ⟨hplain, haad, sequence, ciphertext, tag, hencrypt, rfl⟩ hroom hh hle
    obtain ⟨hcipher, htag⟩ := hgcm.lengths _ _ _ _ _ _ hencrypt
    have hopen := oqsOpen_frame c sequence htag hcipher haad hplain hroom
      (hgcm.decrypt_encrypt _ _ _ _ _ _ hencrypt)
    obtain ⟨hinit, rfl⟩ := OqsContext.highest_eq_some hh
    rw [recordSequence_frame] at hle
    rw [if_pos ⟨hinit, hle⟩] at hopen
    exact hopen
  open_error := oqsOpen_error

/-! ## The two ends of a session -/

def pairedContexts (c2sKey s2cKey c2sNonce s2cNonce : Derived) : OqsContext × OqsContext :=
  (⟨c2sKey.val, s2cKey.val, c2sNonce.nonceBase, s2cNonce.nonceBase, 0, 0, false⟩,
    ⟨s2cKey.val, c2sKey.val, s2cNonce.nonceBase, c2sNonce.nonceBase, 0, 0, false⟩)

theorem initializeContexts_cases {expand : String → Outcome Derived}
    {contexts : OqsContext × OqsContext} (h : initializeContexts expand = .ok contexts) :
    ∃ c2sKey s2cKey c2sNonce s2cNonce, expand "adaptive/c2s/key" = .ok c2sKey ∧
      expand "adaptive/s2c/key" = .ok s2cKey ∧
      contexts = pairedContexts c2sKey s2cKey c2sNonce s2cNonce := by
  rw [initializeContexts, bind_eq_ok_iff] at h
  obtain ⟨c2sKey, hc2s, h⟩ := h
  rw [bind_eq_ok_iff] at h
  obtain ⟨s2cKey, hs2c, h⟩ := h
  rw [bind_eq_ok_iff] at h
  obtain ⟨c2sNonce, -, h⟩ := h
  rw [bind_eq_ok_iff] at h
  obtain ⟨s2cNonce, -, h⟩ := h
  cases h
  exact ⟨c2sKey, s2cKey, c2sNonce, s2cNonce, hc2s, hs2c, rfl⟩

/-- Each end of a session opens what the other one seals. -/
theorem deliversInOrder_pairedContexts {gcm : AesGcm} (hgcm : gcm.Correct)
    (c2sKey s2cKey c2sNonce s2cNonce : Derived) :
    DeliversInOrder (oqsProvider gcm) (pairedContexts c2sKey s2cKey c2sNonce s2cNonce).1
      (pairedContexts c2sKey s2cKey c2sNonce s2cNonce).2 ∧
    DeliversInOrder (oqsProvider gcm) (pairedContexts c2sKey s2cKey c2sNonce s2cNonce).2
      (pairedContexts c2sKey s2cKey c2sNonce s2cNonce).1 :=
  ⟨(oqsLayer gcm hgcm).deliversInOrder rfl rfl, (oqsLayer gcm hgcm).deliversInOrder rfl rfl⟩

/-! ## Delivery -/

/-- Each end of a test pair, and of an established AES-256-GCM session, delivers the
in-order subsequence of the records that the other end has sealed under every order of
calls, and an open that does not return `ADAPTIVE_OK` leaves the replay state alone. -/
theorem providers_deliver_in_order :
    (∀ seed, DeliversInOrder testProvider (securityTestPair seed).1 (securityTestPair seed).2 ∧
      DeliversInOrder testProvider (securityTestPair seed).2 (securityTestPair seed).1) ∧
    (∀ (test test' : TestContext) (record aad : Bytes) (capacity : ℕ) (e : Stop Failure),
      testOpen test record aad capacity = (.error e, test') →
        test'.rxHighest = test.rxHighest ∧ test'.rxInitialized = test.rxInitialized) ∧
    ∀ gcm : AesGcm, gcm.Correct →
      (∀ (hkdfExpand : String → Outcome Derived) (client server : OqsContext),
        initializeContexts hkdfExpand = .ok (client, server) →
          DeliversInOrder (oqsProvider gcm) client server ∧
          DeliversInOrder (oqsProvider gcm) server client) ∧
      ∀ (oqs oqs' : OqsContext) (record aad : Bytes) (capacity : ℕ) (e : Stop Failure),
        oqsOpen gcm oqs record aad capacity = (.error e, oqs') →
          oqs'.rxHighest = oqs.rxHighest ∧ oqs'.rxInitialized = oqs.rxInitialized := by
  refine ⟨?_, ?_, ?_⟩
  · intro seed
    exact ⟨testLayer.deliversInOrder rfl rfl, testLayer.deliversInOrder rfl rfl⟩
  · intro test test' record aad capacity e h
    obtain rfl := testOpen_error h
    exact ⟨rfl, rfl⟩
  · intro gcm hgcm
    refine ⟨?_, ?_⟩
    · intro hkdfExpand client server h
      obtain ⟨c2sKey, s2cKey, c2sNonce, s2cNonce, -, -, hpair⟩ := initializeContexts_cases h
      obtain ⟨rfl, rfl⟩ := Prod.ext_iff.mp hpair
      exact deliversInOrder_pairedContexts hgcm c2sKey s2cKey c2sNonce s2cNonce
    · intro oqs oqs' record aad capacity e h
      obtain rfl := oqsOpen_error h
      exact ⟨rfl, rfl⟩

/-! ## A run of each provider -/

/-- A cipher with the laws of AES-256-GCM, from the stream and the tag of the test provider. -/
def streamGcm : AesGcm where
  encrypt := fun key nonce aad plaintext =>
    let ciphertext := applyStream (readU64Be key) (readU64Be nonce) plaintext
    some (ciphertext, makeTag (readU64Be key) nonce ciphertext aad)
  decrypt := fun key nonce aad ciphertext tag =>
    if makeTag (readU64Be key) nonce ciphertext aad = tag then
      some (applyStream (readU64Be key) (readU64Be nonce) ciphertext)
    else none

theorem streamGcm_correct : streamGcm.Correct where
  lengths := by
    intro key nonce aad plaintext ciphertext tag h
    cases h
    exact ⟨length_applyStream _ _ _, length_makeTag _ _ _ _⟩
  decrypt_encrypt := by
    intro key nonce aad plaintext ciphertext tag h
    cases h
    simp only [streamGcm, if_true, applyStream_applyStream]

/-- Different bytes for the two keys and for the two nonce bases. -/
def sampleExpand (label : String) : Outcome Derived :=
  if label = "adaptive/c2s/key" then .ok ⟨List.replicate 32 7, rfl⟩
  else if label = "adaptive/s2c/key" then .ok ⟨List.replicate 32 8, rfl⟩
  else if label = "adaptive/c2s/nonce" then .ok ⟨List.replicate 32 7, rfl⟩
  else .ok ⟨List.replicate 32 9, rfl⟩

def samplePair : OqsContext × OqsContext :=
  pairedContexts ⟨List.replicate 32 7, rfl⟩ ⟨List.replicate 32 8, rfl⟩
    ⟨List.replicate 32 7, rfl⟩ ⟨List.replicate 32 9, rfl⟩

theorem initializeContexts_sampleExpand : initializeContexts sampleExpand = .ok samplePair := by
  decide +kernel

def sampleOqsRecord : Bytes :=
  [1, 0, 0, 0, 0, 0, 0, 0, 0, 1, 2, 3, 103, 244, 143, 76, 95, 38, 218, 87, 53, 31, 155, 6, 232,
    200, 34, 233]

/-- What the ends are called with: a seal, the record that was sealed at a place, an open
of any record by the sealing end, and a record of the other end that it opens. -/
inductive DeliveryCall
  | sealing (plaintext aad : Bytes) (capacity : ℕ)
  | presenting (place : ℕ)
  | opening (record aad : Bytes) (capacity : ℕ)
  | replying (plaintext aad : Bytes)

section Run
variable {σ : Type} (P : SecurityProvider σ)

def Delivery.call (s : Delivery σ) : DeliveryCall → Delivery σ
  | .sealing plaintext aad capacity =>
    match P.sealFn s.client plaintext aad capacity with
    | (.ok record, client) => { s with client, sealed := s.sealed ++ [⟨plaintext, aad, record⟩] }
    | (.error _, client) => { s with client }
  | .presenting place =>
    match s.sealed[place]? with
    | none => s
    | some entry =>
      match P.openFn s.server entry.record entry.aad entry.plaintext.length with
      | (.ok _, server) =>
        { s with server, accepted := s.accepted ++ [recordSequence entry.record] }
      | (.error _, server) => { s with server }
  | .opening record aad capacity =>
    { s with client := (P.openFn s.client record aad capacity).2 }
  | .replying plaintext aad =>
    match P.sealFn s.server plaintext aad (plaintext.length + P.overhead) with
    | (.ok record, server) =>
      { s with server, client := (P.openFn s.client record aad plaintext.length).2 }
    | (.error _, server) => { s with server }

variable {P}

theorem Delivery.Reachable.call {client server : σ} {s : Delivery σ}
    (h : Delivery.Reachable P client server s) (c : DeliveryCall) :
    Delivery.Reachable P client server (s.call P c) := by
  cases c with
  | sealing plaintext aad capacity =>
    rw [Delivery.call]
    split
    · rename_i record client' hseal
      exact h.next (.sealed hseal)
    · rename_i e client' hseal
      exact h.next (.sealFailed hseal)
  | presenting place =>
    rw [Delivery.call]
    split
    · exact h
    rename_i entry hentry
    split
    · rename_i plaintext server' hopen
      exact h.next (.accepted (List.mem_of_getElem? hentry) (le_refl _) hopen)
    · rename_i e server' hopen
      exact h.next (.openFailed hopen)
  | opening record aad capacity => exact h.next (.replyOpened rfl)
  | replying plaintext aad =>
    rw [Delivery.call]
    split
    · rename_i record server' hseal
      exact (h.next (.reply hseal)).next (.replyOpened rfl)
    · rename_i e server' hseal
      exact h.next (.reply hseal)

def deliveryRun (P : SecurityProvider σ) (client server : σ) (calls : List DeliveryCall) :
    Delivery σ :=
  calls.foldl (Delivery.call P) ⟨client, server, [], []⟩

theorem deliveryRun_reachable (client server : σ) (calls : List DeliveryCall) :
    Delivery.Reachable P client server (deliveryRun P client server calls) := by
  refine List.foldlRecOn calls (Delivery.call P) .start ?_
  intro s h c _
  exact h.call c

end Run

/-- Three records, between them a seal without room; the second one reaches the other end
first, then the first one and a copy of the second; a record that is too short, and a
reply, reach the sealing end. -/
def sampleDelivery : List DeliveryCall :=
  [.sealing [1, 2, 3] [9] 64, .sealing [4] [] 26, .sealing [5] [9] 25, .sealing [5, 6] [9] 64,
    .presenting 1, .presenting 0, .presenting 1, .opening [1, 0] [] 64, .replying [7] [8]]

/-- The first two records are replays after it, and the third is opened. -/
def sampleAnswers : List (Outcome Bytes) := [fail .replay, fail .replay, .ok [5, 6]]

theorem providers_deliver_in_order_sample :
    (deliveryRun testProvider (securityTestPair 7).1 (securityTestPair 7).2
      sampleDelivery).answers testProvider = sampleAnswers ∧
    (deliveryRun testProvider (securityTestPair 7).2 (securityTestPair 7).1
      sampleDelivery).answers testProvider = sampleAnswers ∧
    (deliveryRun (oqsProvider streamGcm) samplePair.1 samplePair.2
      sampleDelivery).answers (oqsProvider streamGcm) = sampleAnswers ∧
    (deliveryRun (oqsProvider streamGcm) samplePair.2 samplePair.1
      sampleDelivery).answers (oqsProvider streamGcm) = sampleAnswers := by
  obtain ⟨htest, hreply⟩ := providers_deliver_in_order.1 7
  obtain ⟨hoqs, hoqsReply⟩ := (providers_deliver_in_order.2.2 streamGcm streamGcm_correct).1
    sampleExpand samplePair.1 samplePair.2 initializeContexts_sampleExpand
  refine ⟨?_, ?_, ?_, ?_⟩
  · rw [htest.answers (deliveryRun_reachable _ _ _)]
    decide +kernel
  · rw [hreply.answers (deliveryRun_reachable _ _ _)]
    decide +kernel
  · rw [hoqs.answers (deliveryRun_reachable _ _ _)]
    decide +kernel
  · rw [hoqsReply.answers (deliveryRun_reachable _ _ _)]
    decide +kernel

end AdaptiveLowpan
