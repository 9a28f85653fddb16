import AdaptiveLowpan.ExactArithmetic
import AdaptiveLowpan.NodeIntegrity
import AdaptiveLowpan.WeightedMoments

/-! # What the observer knows after any number of requests

In exact arithmetic its values are weighted means of what it was told. In any arithmetic
the value for retries repeats the one for losses, as long as the counter of failures does
not wrap. -/

namespace AdaptiveLowpan
open CDouble WeightedMoments

variable {D : Type} [CDouble D]

def observed (clockSecond : ℕ) (samples : ℕ → ContikiSample) : ℕ → ContikiObserver D
  | 0 => contikiObserverRecord clockSecond contikiObserverInit (samples 0)
  | n + 1 => contikiObserverRecord clockSecond (observed clockSecond samples n) (samples (n + 1))

def failureRun (samples : ℕ → ContikiSample) : ℕ → ℕ
  | 0 => if (samples 0).success then 0 else 1
  | n + 1 => if (samples (n + 1)).success then 0 else failureRun samples n + 1

variable {clockSecond : ℕ} {samples : ℕ → ContikiSample} {n : ℕ}

theorem observed_initialized :
    (observed clockSecond samples n : ContikiObserver D).initialized = true := by
  cases n with
  | zero => rfl
  | succ n => rfl

theorem observed_consecutiveFailures :
    (observed clockSecond samples n : ContikiObserver D).consecutiveFailures =
      UInt32.ofNat (failureRun samples n) := by
  induction n with
  | zero =>
    rw [observed, contikiObserverRecord, failureRun]
    split
    · rfl
    · rfl
  | succ n ih =>
    rw [observed, contikiObserverRecord, failureRun, ih]
    split
    · rfl
    · exact (UInt32.ofNat_add (failureRun samples n) 1).symm

/-- Whether the counter is above zero after a request is whether the request has failed. -/
theorem failures_pos_iff (hrun : failureRun samples n < 2 ^ 32) :
    UInt32.ofNat (failureRun samples n) > 0 ↔ ¬(samples n).success = true := by
  have hpos : UInt32.ofNat (failureRun samples n) > 0 ↔ failureRun samples n ≠ 0 := by
    rw [gt_iff_lt, UInt32.lt_iff_toNat_lt, UInt32.toNat_ofNat', Nat.mod_eq_of_lt hrun]
    exact Nat.pos_iff_ne_zero
  rw [hpos]
  cases n with
  | zero =>
    rw [failureRun]
    split <;> simp_all
  | succ n =>
    rw [failureRun]
    split <;> simp_all

theorem retry_sample_eq (hrun : failureRun samples n < 2 ^ 32) :
    (if UInt32.ofNat (failureRun samples n) > 0 then lit 1 else lit 0 : D) =
      if (samples n).success then lit 0 else lit 1 := by
  rw [if_congr (failures_pos_iff hrun) rfl rfl, ite_not]

theorem contikiObserverRecord_retry (observer : ContikiObserver D) (sample : ContikiSample) :
    (contikiObserverRecord clockSecond observer sample).retryEwma =
      ewma observer.retryEwma
        (if (contikiObserverRecord clockSecond observer sample).consecutiveFailures > 0 then lit 1
          else lit 0) observer.initialized := rfl

theorem observed_retry (hrun : ∀ m ≤ n, failureRun samples m < 2 ^ 32) :
    (observed clockSecond samples n : ContikiObserver D).retryEwma =
      (observed clockSecond samples n).lossEwma := by
  have hsample := retry_sample_eq (D := D) (hrun n le_rfl)
  rw [← show (observed clockSecond samples n : ContikiObserver D).consecutiveFailures =
    UInt32.ofNat (failureRun samples n) from observed_consecutiveFailures] at hsample
  induction n with
  | zero =>
    rw [observed, contikiObserverRecord_retry, ← observed, hsample]
    rfl
  | succ n ih =>
    have hbefore := ih (fun m hm => hrun m (Nat.le_succ_of_le hm)) (by
      rw [observed_consecutiveFailures]
      exact retry_sample_eq (hrun n (Nat.le_succ n)))
    rw [observed, contikiObserverRecord_retry, ← observed, hsample, hbefore]
    rfl

/-! ## The observer of the process -/

section Process

variable {F σ τ : Type} [CFloat F D] {P : SecurityProvider σ} {config : AdaptiveConfig D}

/-- A CoAP stack that also keeps how its requests went. -/
def sampledRequest (request : TimedRequest τ) : TimedRequest (τ × List ContikiSample) :=
  fun t message =>
    let (response, elapsed, transport) := request t.1 message
    (response, elapsed, transport,
      t.2 ++ [⟨elapsed, responseHandler response, message.payload.length⟩])

section Loop

omit [CDouble D] [CFloat F D]

variable {request : BlockingRequest τ} {plan : TransferPlan} {I : τ → Prop} {n n' : NodeState σ τ}

theorem nodeTurn_keeps (hrequest : ∀ t message, I t → I (request t message).2)
    (hn : I n.transport) : I (nodeTurn P request plan n).2.transport := by
  have hchoice (c : Prop) [Decidable c] (r r' : Bool × NodeState σ τ) (hr : I r.2.transport)
      (hr' : I r'.2.transport) : I (if c then r else r').2.transport := by
    split
    · exact hr
    · exact hr'
  rw [nodeTurn]
  simp only
  rcases securitySeal P n.security _ _ maxBlockSize with ⟨e | record, security⟩
  · exact hn
  · exact hchoice _ _ _ (hrequest _ _ hn) (hrequest _ _ hn)

theorem nodeLoop_keeps (hrequest : ∀ t message, I t → I (request t message).2) {turns : ℕ}
    (h : nodeLoop P request plan turns n = some n') (hn : I n.transport) : I n'.transport := by
  induction turns generalizing n with
  | zero =>
    rw [nodeLoop] at h
    split at h
    · cases h
    · cases h
      exact hn
  | succ turns ih =>
    have hturn : I (nodeTurn P request plan n).2.transport := nodeTurn_keeps hrequest hn
    rw [nodeLoop] at h
    split at h
    · generalize nodeTurn P request plan n = r at hturn h
      obtain ⟨goes, n₁⟩ := r
      cases goes with
      | false =>
        cases h
        exact hturn
      | true => exact ih h hturn
    · cases h
      exact hn

end Loop

/-- The observer has seen how every request went. -/
def NodeProcess.Observed (clockSecond : ℕ) (node : NodeProcess D σ (τ × List ContikiSample)) :
    Prop :=
  node.observer = node.transport.2.foldl (contikiObserverRecord clockSecond) contikiObserverInit

theorem NodeProcess.Observed.iteration {request : TimedRequest τ} {report : NodeReport D}
    {node node' : NodeProcess D σ (τ × List ContikiSample)} (h : node.Observed clockSecond)
    {readings : PlatformReadings F D config.windowSize}
    (hturn : nodeIteration clockSecond P (sampledRequest request) config node readings =
      some (report, node')) : node'.Observed clockSecond := by
  have hkept {encoded : NodeProcess D σ (τ × List ContikiSample)}
      {r : Outcome (EncodedWindow D)} (hencode : nodeEncode config node readings = (r, encoded)) :
      encoded.Observed clockSecond := by
    obtain ⟨hobserver, -, -, htransport⟩ := nodeEncode_keeps hencode
    rw [Observed, hobserver, htransport]
    exact h
  rw [nodeIteration] at hturn
  split at hturn
  · rename_i hencode
    cases hturn
    exact hkept hencode
  rename_i hencode
  split at hturn
  · cases hturn
    exact hkept hencode
  split at hturn
  · cases hturn
  · rename_i hloop
    cases hturn
    have hstart := hkept hencode
    rw [Observed] at hstart
    refine nodeLoop_keeps (I := fun t : (τ × List ContikiSample) × ContikiObserver D => t.2 =
      t.1.2.foldl (contikiObserverRecord clockSecond) contikiObserverInit) ?_ hloop hstart
    intro t message ht
    simp only [observedRequest, sampledRequest, List.foldl_append, List.foldl_cons,
      List.foldl_nil, ht]

theorem NodeProcess.Observed.run {request : TimedRequest τ} {reports : List (NodeReport D)}
    {node node' : NodeProcess D σ (τ × List ContikiSample)} (h : node.Observed clockSecond)
    (readings : List (PlatformReadings F D config.windowSize))
    (hrun : nodeProcess clockSecond P (sampledRequest request) config node readings =
      some (reports, node')) : node'.Observed clockSecond := by
  induction readings generalizing node reports with
  | nil =>
    cases hrun
    exact h
  | cons reading readings ih =>
    rw [nodeProcess] at hrun
    split at hrun
    · cases hrun
    · rename_i hturn
      split at hrun
      · cases hrun
      · rename_i hrest
        cases hrun
        exact ih (h.iteration hturn) hrest

end Process

/-! ## Exact arithmetic -/

section Exact

variable [MathFunctions]

/-- A new sample moves the mean by an eighth of its distance. -/
theorem ewma_eq (previous sample : ℝ) :
    ewma previous sample true = previous + 1 / 8 * (sample - previous) := by
  have heighth : (portEwmaAlpha : ℝ) = 1 / 8 := by
    change ((1 / 8 : ℚ) : ℝ) = 1 / 8
    norm_num
  have hone : (lit 1 : ℝ) = 1 := Rat.cast_one
  rw [ewma, if_pos rfl, heighth, hone]
  ring

/-- A value that the observer keeps by `ewma` is the weighted mean of its samples. -/
theorem observed_eq_weightedMean (value : ContikiObserver ℝ → ℝ) (x : ContikiSample → ℝ)
    (hvalue : ∀ observer sample, value (contikiObserverRecord clockSecond observer sample) =
      ewma (value observer) (x sample) observer.initialized) (n : ℕ) :
    value (observed clockSecond samples n) = weightedMean (1 / 8) (fun i => x (samples i)) n := by
  induction n with
  | zero =>
    rw [observed, hvalue, weightedMean_zero]
    exact if_neg Bool.false_ne_true
  | succ n ih => rw [observed, hvalue, observed_initialized, ewma_eq, ih, weightedMean_succ]

def ContikiSample.lost (sample : ContikiSample) : ℝ := if sample.success then 0 else 1

theorem ContikiSample.lost_eq (sample : ContikiSample) :
    (if sample.success then lit 0 else lit 1 : ℝ) = sample.lost := by
  have hzero : (lit 0 : ℝ) = 0 := Rat.cast_zero
  have hone : (lit 1 : ℝ) = 1 := Rat.cast_one
  rw [lost, hzero, hone]

theorem ContikiSample.rttMs_eq (sample : ContikiSample) :
    sample.rttMs clockSecond = (1000 * sample.ticks / clockSecond : ℝ) := by
  have hthousand : (lit 1000 : ℝ) = 1000 := Rat.cast_ofNat 1000
  rw [rttMs, hthousand, lit_real, lit_real, Rat.cast_natCast, Rat.cast_natCast]

/-- The bits of the payload over the seconds of the request. -/
theorem ContikiSample.goodput_eq (sample : ContikiSample) :
    sample.goodput clockSecond = if sample.success then
      (8 * sample.payloadBytes * clockSecond / sample.ticks : ℝ) else 0 := by
  have height : (lit 8 : ℝ) = 8 := Rat.cast_ofNat 8
  have hzero : (lit 0 : ℝ) = 0 := Rat.cast_zero
  rw [goodput, height, hzero, lit_real, lit_real, lit_real, Rat.cast_natCast, Rat.cast_natCast,
    Rat.cast_natCast]

theorem observed_loss (n : ℕ) : (observed clockSecond samples n).lossEwma =
    weightedMean (1 / 8) (fun i => (samples i).lost) n := by
  refine observed_eq_weightedMean (·.lossEwma) ContikiSample.lost (fun observer sample => ?_) n
  rw [← sample.lost_eq]
  rfl

omit [MathFunctions] in
theorem ContikiSample.lost_mem (sample : ContikiSample) : sample.lost ∈ Set.Icc 0 1 := by
  rw [lost]
  split
  · exact ⟨le_rfl, zero_le_one⟩
  · exact ⟨zero_le_one, le_rfl⟩

structure ContikiObserver.Means (observer : ContikiObserver ℝ) (clockSecond : ℕ)
    (samples : ℕ → ContikiSample) (n : ℕ) : Prop where
  loss : observer.lossEwma = weightedMean (1 / 8) (fun i => (samples i).lost) n
  rtt : observer.rttMsEwma =
    weightedMean (1 / 8) (fun i => (1000 * (samples i).ticks / clockSecond : ℝ)) n
  goodput : observer.goodputBpsEwma = weightedMean (1 / 8) (fun i => if (samples i).success then
    (8 * (samples i).payloadBytes * clockSecond / (samples i).ticks : ℝ) else 0) n
  loss_mem : observer.lossEwma ∈ Set.Icc 0 1
  /-- Failures in a row draw the value for losses to one. -/
  outage : ∀ m ≤ n, (∀ i, m < i → i ≤ n → (samples i).success = false) →
    observer.lossEwma = 1 - (7 / 8) ^ (n - m) *
      (1 - weightedMean (1 / 8) (fun i => (samples i).lost) m)
  /-- Retries are losses, unless 2³² failures have come in a row. -/
  retry : (∀ m ≤ n, failureRun samples m < 2 ^ 32) → observer.retryEwma = observer.lossEwma

theorem observed_means (clockSecond : ℕ) (samples : ℕ → ContikiSample) (n : ℕ) :
    (observed clockSecond samples n).Means clockSecond samples n := by
  refine ⟨observed_loss n, ?_, ?_, ?_, ?_, observed_retry⟩
  · rw [observed_eq_weightedMean (·.rttMsEwma) (·.rttMs clockSecond) (fun _ _ => rfl) n]
    simp only [ContikiSample.rttMs_eq]
  · rw [observed_eq_weightedMean (·.goodputBpsEwma) (·.goodput clockSecond) (fun _ _ => rfl) n]
    simp only [ContikiSample.goodput_eq]
  · rw [observed_loss]
    exact weightedMean_mem_Icc (by norm_num) (fun i => (samples i).lost_mem) n
  · intro m hm hfailed
    have htail : ∀ i, m < i → i ≤ n → (samples i).lost = 1 := by
      intro i hi hin
      rw [ContikiSample.lost, hfailed i hi hin, if_neg Bool.false_ne_true]
    have hseven : (1 - 1 / 8 : ℝ) = 7 / 8 := by norm_num
    rw [observed_loss, weightedMean_of_tail _ _ hm htail, hseven]
    ring

/-- The samples of a list, continued by failures that nothing reads. -/
def sampleAt (samples : List ContikiSample) (i : ℕ) : ContikiSample := samples.getD i ⟨0, false, 0⟩

omit [MathFunctions] in
theorem sampleAt_concat_of_lt (samples : List ContikiSample) (sample : ContikiSample) {i : ℕ}
    (hi : i < samples.length) : sampleAt (samples ++ [sample]) i = sampleAt samples i := by
  rw [sampleAt, sampleAt, List.getD_append _ _ _ _ hi]

theorem observed_congr {samples samples' : ℕ → ContikiSample} {n : ℕ}
    (h : ∀ i ≤ n, samples i = samples' i) :
    (observed clockSecond samples n : ContikiObserver ℝ) = observed clockSecond samples' n := by
  induction n with
  | zero => rw [observed, observed, h 0 le_rfl]
  | succ n ih =>
    rw [observed, observed, h (n + 1) le_rfl, ih fun i hi => h i (Nat.le_succ_of_le hi)]

theorem foldl_eq_observed {samples : List ContikiSample} {n : ℕ} (h : samples.length = n + 1) :
    samples.foldl (contikiObserverRecord clockSecond) contikiObserverInit =
      (observed clockSecond (sampleAt samples) n : ContikiObserver ℝ) := by
  induction samples using List.reverseRecOn generalizing n with
  | nil => cases h
  | append_singleton samples sample ih =>
    rw [List.length_append, List.length_singleton] at h
    have hlast : sampleAt (samples ++ [sample]) n = sample := by
      have hn : n = samples.length := by omega
      rw [sampleAt, hn, List.getD_append_right _ _ _ _ le_rfl, Nat.sub_self]
      rfl
    rw [List.foldl_append, List.foldl_cons, List.foldl_nil]
    cases n with
    | zero =>
      obtain rfl : samples = [] := List.eq_nil_of_length_eq_zero (by omega)
      rfl
    | succ n =>
      have hbefore : (observed clockSecond (sampleAt (samples ++ [sample])) n :
          ContikiObserver ℝ) = observed clockSecond (sampleAt samples) n :=
        observed_congr fun i hi => sampleAt_concat_of_lt samples sample (by omega)
      rw [ih (Nat.succ.inj h), observed, hbefore, hlast]

/-- In every run of the process, over whatever network, the observer holds the exponentially
weighted means of how the requests went, with weight 1/8 for a new one. -/
theorem nodeProcess_means (clockSecond : ℕ) {F σ τ : Type} [CFloat F ℝ] (P : SecurityProvider σ)
    (request : TimedRequest τ) (config : AdaptiveConfig ℝ) (client : σ) (t : τ)
    (readings : List (PlatformReadings F ℝ config.windowSize)) :
    ∃ reports node, nodeProcess clockSecond P (sampledRequest request) config
        (nodeProcessInit config client (t, [])) readings = some (reports, node) ∧
      ∀ n, node.transport.2.length = n + 1 →
        node.observer.Means clockSecond (sampleAt node.transport.2) n := by
  obtain ⟨reports, node, hrun⟩ := nodeProcess_total clockSecond P (sampledRequest request) config
    (nodeProcessInit config client (t, [])) readings
  refine ⟨reports, node, hrun, fun n hlength => ?_⟩
  have hstart : (nodeProcessInit config client
      (t, ([] : List ContikiSample))).Observed clockSecond := rfl
  have hobserved : node.observer =
      node.transport.2.foldl (contikiObserverRecord clockSecond) contikiObserverInit :=
    hstart.run readings hrun
  rw [hobserved, foldl_eq_observed hlength]
  exact observed_means clockSecond _ n

end Exact

end AdaptiveLowpan
