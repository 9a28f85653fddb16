import AdaptiveLowpan.ConfigLoad
import AdaptiveLowpan.ConfigPolicy
import AdaptiveLowpan.Handshake
import AdaptiveLowpan.Loopback

/-! # The demonstration program

The options, the configuration, the session and the main loop, with the exit code. -/

namespace AdaptiveLowpan
open ByteWords CheckedMemory CDouble CFloat

variable {F D σ : Type} [CDouble D] [CStrtod D] [CFloat F D]

/-! ## The options -/

structure Options where
  configPath : Bytes
  steps : UInt32
  useOqs : Bool
  oqsAlgorithm : Option Bytes

def defaultOptions : Options := ⟨ascii "config/runtime.conf", 36, false, none⟩

def stepsOption (text : Bytes) : Option UInt32 :=
  let parsed := strtoul text
  if parsed.rest = text ∨ parsed.rest ≠ [] ∨ parsed.value = 0 then none
  else some (UInt32.ofNat parsed.value)

def readOptions (options : Options) : List Bytes → Option Options
  | [] => some options
  | [arg] => if arg = ascii "--oqs" then some { options with useOqs := true } else none
  | arg :: value :: args =>
    if arg = ascii "--config" then readOptions { options with configPath := value } args
    else if arg = ascii "--steps" then
      match stepsOption value with
      | none => none
      | some steps => readOptions { options with steps } args
    else if arg = ascii "--oqs" then
      if value.head? ≠ some 0x2d then
        readOptions { options with useOqs := true, oqsAlgorithm := some value } args
      else readOptions { options with useOqs := true } (value :: args)
    else none

/-! ## The inputs -/

structure Host (D : Type) where
  fopen : Bytes → Option OpenFile
  kemNew : Bytes → Option Kem
  sha : Sha256
  gcm : AesGcm
  sin : D → D
  cos : D → D

def generateSignal (host : Host D) (count step : ℕ) : List F :=
  (List.range count).map fun (i : ℕ) =>
    let t : D := lit i / lit count
    let drift := lit 0.15 * host.sin (twoPi * lit step / lit 17)
    ofDouble (host.sin (twoPi * lit 3 * t) + lit 0.30 * host.cos (twoPi * lit 11 * t) +
      lit 0.05 * host.sin (twoPi * lit (i + step : ℕ) / lit 7) + drift)

def generateNetworkParameters (step : ℕ) : NetworkMetrics D :=
  let phase := step % 24
  let pressure : D :=
    if phase < 5 then lit 0.15 + lit 0.02 * lit phase
    else if phase < 10 then lit 0.35 + lit 0.10 * lit ((phase - 5 : ℕ) : ℚ)
    else if phase < 16 then lit 1.15 + lit 0.08 * lit ((phase - 10 : ℕ) : ℚ)
    else if phase < 20 then lit 0.75 - lit 0.12 * lit ((phase - 16 : ℕ) : ℚ)
    else lit 0.20
  fun
    | .queue => lit 0.08 + lit 0.42 * pressure
    | .loss => lit 0.01 + lit 0.10 * pressure
    | .rtt => lit 45 + lit 95 * pressure
    | .retry => lit 0.02 + lit 0.18 * pressure
    | .goodput => lit 18000 / (lit 1 + lit 0.85 * pressure)

def stepInput (host : Host D) (config : AdaptiveConfig D) (step : ℕ) : LoopbackInput F D :=
  ⟨generateSignal host config.windowSize step, generateNetworkParameters step⟩

def stepInputs (host : Host D) (options : Options) (config : AdaptiveConfig D) :
    List (LoopbackInput F D) :=
  (List.range options.steps.toNat).map (stepInput host config)

/-! ## The program -/

structure Exit (D : Type) where
  code : ℕ
  rows : List (PipelineStats D)

/-- The part of `main` after the session is set up. A window that does not come back ends the
loop with `ADAPTIVE_OK` still in `result`. -/
def demonstrate (P : SecurityProvider σ) (config : AdaptiveConfig D) (client server : σ)
    (inputs : List (LoopbackInput F D)) : Outcome (Exit D) :=
  match loopbackInit P config client server with
  | .error .fault => .error .fault
  | .error (.result _) => .ok ⟨1, []⟩
  | .ok start =>
    let (rows, ended, s) := loopbackRun P config start inputs
    if s.loopback.faulted then .error .fault
    else
      match ended with
      | .ok () => .ok ⟨0, rows⟩
      | .error .unmatched => .ok ⟨0, rows⟩
      | .error (.failed (.result _)) => .ok ⟨1, rows⟩
      | .error (.failed .fault) => .error .fault

/-- `main`. -/
def demonstration (F : Type) [CFloat F D] (host : Host D) (args : List Bytes) :
    Outcome (Exit D) :=
  match readOptions defaultOptions args with
  | none => .ok ⟨2, []⟩
  | some options =>
    let loaded := configLoad configDefaults (host.fopen options.configPath)
    let inputs : List (LoopbackInput F D) := stepInputs host options loaded.config
    match loaded.report with
    | .error _ => .ok ⟨1, []⟩
    | .ok () =>
      if options.useOqs then
        match securityOqsPair host.kemNew host.sha options.oqsAlgorithm with
        | .error .fault => .error .fault
        | .error (.result _) => .ok ⟨1, []⟩
        | .ok ((client, server), _) =>
          demonstrate (oqsProvider host.gcm) loaded.config client server inputs
      else
        let (client, server) := securityTestPair 0x6c6f7770616e2026
        demonstrate testProvider loaded.config client server inputs

/-! ## The exit code -/

/-- AES-256-GCM encrypts whatever it is given. -/
def AesGcm.Total (gcm : AesGcm) : Prop :=
  ∀ key nonce aad plaintext, ∃ sealed, gcm.encrypt key nonce aad plaintext = some sealed

theorem sealsBlocks_oqsProvider {gcm : AesGcm} (hgcm : gcm.Correct) (htotal : gcm.Total) :
    SealsBlocks (oqsProvider gcm) := by
  intro oqs plaintext aad hroom haad
  change plaintext.length + securityOverhead ≤ maxBlockSize at hroom
  have hblock : maxBlockSize = 1024 := rfl
  have hint : intMax = 2147483647 := rfl
  obtain ⟨⟨ciphertext, tag⟩, hencrypt⟩ := htotal oqs.txKey
    (makeNonce oqs.txNonceBase oqs.txSequence) (recordHeader oqs.txSequence ++ aad) plaintext
  obtain ⟨hcipher, htag⟩ := hgcm.lengths _ _ _ _ _ _ hencrypt
  refine ⟨frame oqs.txSequence ciphertext tag, { oqs with txSequence := oqs.txSequence + 1 },
    ?_, ?_⟩
  · change oqsSeal gcm oqs plaintext aad maxBlockSize = _
    rw [oqsSeal, if_neg (by omega)]
    simp only [hencrypt]
    rfl
  · rw [length_frame _ _ htag, hcipher]
    rfl

omit [CStrtod D] in
/-- A demonstration with a configuration whose windows can be sent. -/
theorem demonstrate_complete {P : SecurityProvider σ} (L : RecordLayer P)
    (hoverhead : P.overhead = securityOverhead) (hseals : SealsBlocks P)
    (hbits : ∀ x : F, ofBits (toBits x) = x) {config : AdaptiveConfig D} (hconfig : config.Sendable)
    {client server : σ} (hkeys : L.sealKey client = L.openKey server)
    (hfresh : L.gap client server = 0) (hstart : L.sequence client = 0)
    {inputs : List (LoopbackInput F D)} (hinputs : ∀ input ∈ inputs, input.Good config)
    (hlength : inputs.length < 2 ^ 32) :
    ∃ rows, demonstrate P config client server inputs = .ok ⟨0, rows⟩ ∧
      rows.map (·.windowId) = (List.range' 1 inputs.length).map UInt32.ofNat := by
  have hwrap : (L.sequence client).toNat + maxRepresentation * inputs.length < 2 ^ 64 := by
    have hrep : maxRepresentation = 1088 := rfl
    rw [hstart, hrep, UInt64.toNat_zero]
    omega
  obtain ⟨rows, s, hrun, hids, hinv⟩ := (invariant_loopbackStart hkeys hfresh).run hoverhead hseals
    hbits hconfig inputs hinputs hwrap
  refine ⟨rows, ?_, hids⟩
  rw [demonstrate, loopbackInit_eq hoverhead client server]
  simp only [hrun]
  rw [if_neg (by rw [hinv.ready.unfaulted]; exact Bool.false_ne_true)]

/-- What a run needs to start: options that are read, a configuration that is loaded and, if
asked for, an established session. -/
structure Starts (host : Host D) (args : List Bytes) (options : Options)
    (config : AdaptiveConfig D) : Prop where
  read : readOptions defaultOptions args = some options
  loaded : configLoad configDefaults (host.fopen options.configPath) = ⟨config, .ok ()⟩
  established : options.useOqs = true →
    ∃ session, securityOqsPair host.kemNew host.sha options.oqsAlgorithm = .ok session

theorem configValidate_of_load {config loaded : AdaptiveConfig D} {file : Option OpenFile}
    (h : configLoad config file = ⟨loaded, .ok ()⟩) : configValidate loaded = .ok () := by
  cases file with
  | none => cases h
  | some file =>
    rw [configLoad] at h
    split at h
    · cases h
    split at h
    · cases h
    · obtain ⟨rfl, hvalid⟩ := LoadResult.mk.inj h
      exact hvalid

/-- What the program's inputs must satisfy for a configuration. -/
structure StepsGood (F : Type) [CFloat F D] (host : Host D) (options : Options)
    (config : AdaptiveConfig D) : Prop where
  blockSzx_ne : ∀ state, config.blockSzx state ≠ 0
  path : ∃ c ∈ config.uriPath.chars, c ≠ slash
  inputs : ∀ step < options.steps.toNat,
    (stepInput host config step : LoopbackInput F D).Good config

theorem demonstration_of_starts {host : Host D} (hgcm : host.gcm.Correct)
    (htotal : host.gcm.Total) (hbits : ∀ x : F, ofBits (toBits x) = x) {args : List Bytes}
    {options : Options} {config : AdaptiveConfig D} (h : Starts host args options config)
    (hgood : StepsGood F host options config) :
    ∃ rows, demonstration F host args = .ok ⟨0, rows⟩ ∧
      rows.map (·.windowId) = (List.range' 1 options.steps.toNat).map UInt32.ofNat := by
  have hconfig : config.Sendable :=
    ⟨configAccepted_of_validate (configValidate_of_load h.loaded), hgood.blockSzx_ne, hgood.path⟩
  have hlength : (stepInputs host options config : List (LoopbackInput F D)).length =
      options.steps.toNat := by
    rw [stepInputs, List.length_map, List.length_range]
  have hinputs : ∀ input ∈ (stepInputs host options config : List (LoopbackInput F D)),
      input.Good config := by
    intro input hinput
    obtain ⟨step, hstep, rfl⟩ := List.mem_map.mp hinput
    exact hgood.inputs step (List.mem_range.mp hstep)
  have hshort : (stepInputs host options config : List (LoopbackInput F D)).length < 2 ^ 32 := by
    rw [hlength]
    exact options.steps.toNat_lt
  rw [demonstration, h.read]
  simp only [h.loaded]
  rw [← hlength]
  by_cases hoqs : options.useOqs = true
  · obtain ⟨⟨contexts, info⟩, hpair⟩ := h.established hoqs
    obtain ⟨kem, shared, transcript, -, -, hinit⟩ := securityOqsPair_cases hpair
    obtain ⟨c2sKey, s2cKey, c2sNonce, s2cNonce, -, -, rfl⟩ := initializeContexts_cases hinit
    rw [if_pos hoqs]
    simp only [hpair]
    refine demonstrate_complete (oqsLayer host.gcm hgcm) rfl (sealsBlocks_oqsProvider hgcm htotal)
      hbits hconfig ?_ ?_ ?_ hinputs hshort <;> rfl
  · rw [if_neg hoqs]
    refine demonstrate_complete testLayer rfl sealSucceeds_testProvider.sealsBlocks hbits hconfig
      ?_ ?_ ?_ hinputs hshort <;> rfl

/-- A run that does not start, with options that are read, exits with 1. -/
theorem demonstration_of_not_starts {host : Host D} {args : List Bytes} {options : Options}
    (hread : readOptions defaultOptions args = some options)
    (h : ¬∃ config, Starts host args options config) :
    demonstration F host args = .ok ⟨1, []⟩ := by
  rw [demonstration, hread]
  rcases hload : configLoad (configDefaults : AdaptiveConfig D) (host.fopen options.configPath)
    with ⟨config, report⟩
  cases report with
  | error e => simp only [hload]
  | ok =>
    have hoqs : options.useOqs = true := by
      by_contra hne
      exact h ⟨config, hread, hload, fun hoqs => absurd hoqs hne⟩
    simp only [hload]
    rw [if_pos hoqs]
    rcases hpair : securityOqsPair host.kemNew host.sha options.oqsAlgorithm with e | session
    · cases e with
      | result r => rfl
      | fault => exact absurd hpair (securityOqsPair_ne_fault _ _ _)
    · exact absurd ⟨config, hread, hload, fun _ => ⟨session, hpair⟩⟩ h

/-- The program never leaves its buffers. It exits with 2 if the options are malformed, with 0
if they are read, the configuration is loaded and the session that they ask for is set up, and
else with 1; it has then printed one row for each step, in order, or none. -/
theorem demonstration_exits {host : Host D} (hgcm : host.gcm.Correct) (htotal : host.gcm.Total)
    (hbits : ∀ x : F, ofBits (toBits x) = x) (args : List Bytes)
    (hgood : ∀ options config, Starts host args options config →
      StepsGood F host options config) :
    ∃ exit, demonstration F host args = .ok exit ∧
      (exit.code = 2 ↔ readOptions defaultOptions args = none) ∧
      (exit.code = 0 ↔ ∃ options config, Starts host args options config) ∧
      (exit.code ≠ 0 → exit.code ≤ 2 ∧ exit.rows = []) ∧
      ∀ options config, Starts host args options config →
        exit.rows.map (·.windowId) = (List.range' 1 options.steps.toNat).map UInt32.ofNat := by
  cases hread : readOptions defaultOptions args with
  | none =>
    have hstarts : ¬∃ options config, Starts host args options config := by
      rintro ⟨options, config, h⟩
      cases hread.symm.trans h.read
    refine ⟨⟨2, []⟩, ?_, by simp, by simpa using hstarts, by simp,
      fun options config h => absurd ⟨options, config, h⟩ hstarts⟩
    rw [demonstration, hread]
  | some options =>
    by_cases hstarts : ∃ config, Starts host args options config
    · obtain ⟨config, h⟩ := hstarts
      obtain ⟨rows, hrun, hids⟩ := demonstration_of_starts hgcm htotal hbits h (hgood _ _ h)
      refine ⟨⟨0, rows⟩, hrun, by simp, ⟨fun _ => ⟨options, config, h⟩, fun _ => rfl⟩, by simp, ?_⟩
      intro options' config' h'
      obtain rfl : options = options' := Option.some.inj (h.read.symm.trans h'.read)
      exact hids
    · have hnone : ¬∃ options config, Starts host args options config := by
        rintro ⟨options', config, h⟩
        obtain rfl : options = options' := Option.some.inj (hread.symm.trans h.read)
        exact hstarts ⟨config, h⟩
      exact ⟨⟨1, []⟩, demonstration_of_not_starts hread hstarts, by simp, by simpa using hnone,
        by simp, fun options config h => absurd ⟨options, config, h⟩ hnone⟩

section Sample

/-- A host whose only file asks for windows of eight samples. -/
def sampleHost : Host ℚ where
  fopen := fun _ => some ⟨ascii "wavelet.window_size = 8\nwavelet.levels = 1\n", false⟩
  kemNew := fun _ => some (sampleKem 1)
  sha := sampleSha
  gcm := streamGcm
  sin := fun _ => 0
  cos := fun _ => 1

def sampleArgs : List Bytes := [ascii "--oqs", ascii "--steps", ascii "2"]

def hostConfig : AdaptiveConfig ℚ := (configLoad configDefaults (sampleHost.fopen [])).config

def stepsChecked (config : AdaptiveConfig ℚ) : Bool :=
  (AdaptiveState.all.all fun state => config.blockSzx state != 0) &&
    config.uriPath.chars.contains 0x74 &&
    (List.range 2).all fun step =>
      (generateSignal sampleHost config.windowSize step : List Single).length ==
          config.windowSize &&
        acceptableScales config (generateSignal sampleHost config.windowSize step)

theorem stepsGood_of_checked {config : AdaptiveConfig ℚ} (h : stepsChecked config = true)
    {options : Options} (hsteps : options.steps = 2) :
    StepsGood Single sampleHost options config := by
  rw [stepsChecked, Bool.and_eq_true, Bool.and_eq_true] at h
  obtain ⟨⟨hblocks, hpath⟩, hinputs⟩ := h
  refine ⟨?_, ⟨0x74, List.contains_iff_mem.mp hpath, by decide⟩, ?_⟩
  · intro state
    exact bne_iff_ne.mp (List.all_eq_true.mp hblocks state (mem_all state))
  · intro step hstep
    rw [hsteps] at hstep
    have hstep' := List.all_eq_true.mp hinputs step (List.mem_range.mpr hstep)
    rw [Bool.and_eq_true, beq_iff_eq] at hstep'
    exact ⟨hstep'.1, fun _ => rfl, goodScale_of_acceptable hstep'.2⟩

theorem hostConfig_checked : stepsChecked hostConfig = true := by decide +kernel

theorem hostConfig_good (options : Options) (config : AdaptiveConfig ℚ)
    (h : Starts sampleHost sampleArgs options config) :
    StepsGood Single sampleHost options config := by
  have hsteps : (readOptions defaultOptions sampleArgs).map (·.steps) = some 2 := by decide +kernel
  rw [h.read] at hsteps
  obtain rfl : config = hostConfig := congrArg (·.config) h.loaded.symm
  exact stepsGood_of_checked hostConfig_checked (Option.some.inj hsteps)

theorem demonstration_exits_sample :
    ∃ exit, demonstration Single sampleHost sampleArgs = .ok exit ∧
      (exit.code = 2 ↔ readOptions defaultOptions sampleArgs = none) ∧
      (exit.code = 0 ↔ ∃ options config, Starts sampleHost sampleArgs options config) ∧
      (exit.code ≠ 0 → exit.code ≤ 2 ∧ exit.rows = []) ∧
      ∀ options config, Starts sampleHost sampleArgs options config →
        exit.rows.map (·.windowId) = (List.range' 1 options.steps.toNat).map UInt32.ofNat :=
  demonstration_exits streamGcm_correct (fun _ _ _ _ => ⟨_, rfl⟩) (fun _ => rfl) sampleArgs
    hostConfig_good

end Sample

end AdaptiveLowpan
