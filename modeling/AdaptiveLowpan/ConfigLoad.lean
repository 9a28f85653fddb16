import AdaptiveLowpan.ConfigPolicy
import AdaptiveLowpan.ConfigSlots

/-! # Loading a configuration file

The loader reads a file with `fgets` into a buffer of 256 bytes and takes what it has read
for a line. A line with 256 bytes or more is taken for several: what a comment says from
its 256th byte on is read as a line of its own. -/

namespace AdaptiveLowpan
open ByteWords TextLines

variable {D : Type} [CDouble D] [CStrtod D]

/-! ## The loader -/

/-- A file that has been opened: its bytes, and whether `ferror` holds at the end. -/
structure OpenFile where
  bytes : Bytes
  readError : Bool

structure LoadResult (D : Type) where
  config : AdaptiveConfig D
  report : Except ConfigError Unit

/-- The body of the loop in `adaptive_config_load`. -/
def loadLine (config : AdaptiveConfig D) (lineNumber : UInt32) (line : Bytes) :
    Except ConfigError (AdaptiveConfig D) :=
  let key := trim ((cString line).takeWhile (· ≠ 0x23))
  if key = [] then .ok config
  else match cutAt 0x3d key with
    | none => .error ⟨.format, s!"line {lineNumber}: expected key=value"⟩
    | some (key, value) =>
      match applyKey config (trim key) (trim value) with
      | .ok (some config) => .ok config
      | .ok none => .error ⟨.format, s!"line {lineNumber}: invalid key or value"⟩
      | .error code => .error ⟨code, s!"line {lineNumber}: invalid key or value"⟩

def loadLines (config : AdaptiveConfig D) (lineNumber : UInt32) : List Bytes → LoadResult D
  | [] => ⟨config, .ok ()⟩
  | line :: lines =>
    match loadLine config (lineNumber + 1) line with
    | .error e => ⟨config, .error e⟩
    | .ok config => loadLines config (lineNumber + 1) lines

/-- `adaptive_config_load` with a configuration and a path, where `fopen` opens a file or none. -/
def configLoad (config : AdaptiveConfig D) : Option OpenFile → LoadResult D
  | none => ⟨config, .error ⟨.io, "unable to open configuration file"⟩⟩
  | some file =>
    let loaded := loadLines config 0 (fgetsAll 256 file.bytes)
    match loaded.report with
    | .error e => ⟨loaded.config, .error e⟩
    | .ok () =>
      if file.readError then ⟨loaded.config, .error ⟨.io, "error while reading configuration"⟩⟩
      else ⟨loaded.config, configValidate loaded.config⟩

/-- What a caller can tell apart without the text of the message. -/
def LoadResult.outcome (result : LoadResult D) : AdaptiveConfig D × Except Failure Unit :=
  (result.config, result.report.mapError (·.code))

/-! ## The reference -/

/-- A setting is split at the first `=` and applied. One that is refused stops the run with the
configuration so far. -/
def applyText (config : AdaptiveConfig D) (text : Bytes) :
    Except (AdaptiveConfig D × Failure) (AdaptiveConfig D) :=
  match cutAt 0x3d text with
  | none => .error (config, .format)
  | some (key, value) =>
    match applyKey config (trim key) (trim value) with
    | .ok (some config) => .ok config
    | .ok none => .error (config, .format)
    | .error code => .error (config, code)

/-- A line without its comment and the white space around it, unless that is blank. -/
def applyLine (config : AdaptiveConfig D) (line : Bytes) :
    Except (AdaptiveConfig D × Failure) (AdaptiveConfig D) :=
  let text := trim (line.takeWhile (· ≠ 0x23))
  if text = [] then .ok config else applyText config text

/-- The reference loader: the whole lines of the file one after the other, then validation. -/
def referenceLoad (config : AdaptiveConfig D) (file : Bytes) :
    AdaptiveConfig D × Except Failure Unit :=
  match (file.splitOn 0x0a).foldlM applyLine config with
  | .error (config, code) => (config, .error code)
  | .ok config => (config, (configValidate config).mapError (·.code))

/-! ## Settings -/

/-- The settings among some lines: what is left of them, but for the blank ones. -/
def settings (lines : List Bytes) : List Bytes := contents isSpace 0x23 lines

def refusal (config : AdaptiveConfig D) (text : Bytes) : Option Failure :=
  match applyText config text with
  | .ok _ => none
  | .error (_, code) => some code

omit [CDouble D] [CStrtod D] in
theorem settings_singleton (line : Bytes) :
    settings [line] = if trim (line.takeWhile (· ≠ 0x23)) = [] then []
      else [trim (line.takeWhile (· ≠ 0x23))] := by
  by_cases h : trim (line.takeWhile (· ≠ 0x23)) = []
  · rw [if_pos h]
    exact contents_cons_of_nil [] h
  · rw [if_neg h]
    exact contents_cons_of_ne [] h

theorem applyLine_eq (config : AdaptiveConfig D) (line : Bytes) :
    applyLine config line = (settings [line]).foldlM applyText config := by
  rw [settings_singleton, applyLine]
  split
  · rfl
  · rw [List.foldlM_cons]
    exact (bind_pure _).symm

/-- A setting is accepted or refused alike for every configuration: it is refused with a
code, or writes a value to a slot. -/
theorem applyText_settles (text : Bytes) :
    (∃ code, ∀ config : AdaptiveConfig D, applyText config text = .error (config, code)) ∨
      ∃ (slot : Slot) (v : slot.Value D), ∀ config, applyText config text = .ok (slot.set v config) := by
  cases hcut : cutAt 0x3d text with
  | none =>
    left
    refine ⟨.format, fun config => ?_⟩
    rw [applyText, hcut]
  | some parts =>
    obtain ⟨key, value⟩ := parts
    cases applyKey_settles (D := D) (trim key) (trim value) with
    | refuses code h =>
      left
      refine ⟨code, fun config => ?_⟩
      simp only [applyText, hcut, h]
    | ignores h =>
      left
      refine ⟨.format, fun config => ?_⟩
      simp only [applyText, hcut, h]
    | writes slot v h =>
      right
      refine ⟨slot, v, fun config => ?_⟩
      simp only [applyText, hcut, h]

theorem applyText_of_refusal {config : AdaptiveConfig D} {text : Bytes} {code : Failure}
    (h : refusal config text = some code) (config' : AdaptiveConfig D) :
    applyText config' text = .error (config', code) := by
  rcases applyText_settles (D := D) text with ⟨code', hrefuses⟩ | ⟨slot, v, hwrites⟩
  · rw [refusal, hrefuses] at h
    rw [hrefuses, Option.some.inj h]
  · rw [refusal, hwrites] at h
    cases h

/-- The code with which the first setting among some lines is refused. -/
def firstRefusal (config : AdaptiveConfig D) (lines : List Bytes) : Option Failure :=
  (settings lines).head?.bind (refusal config)

theorem foldlM_of_firstRefusal {config : AdaptiveConfig D} {lines : List Bytes} {code : Failure}
    (h : firstRefusal config lines = some code) (config' : AdaptiveConfig D) (more : List Bytes) :
    (settings lines ++ more).foldlM applyText config' = .error (config', code) := by
  rw [firstRefusal] at h
  cases hsettings : settings lines with
  | nil =>
    rw [hsettings] at h
    cases h
  | cons text texts =>
    rw [hsettings] at h
    rw [List.cons_append, List.foldlM_cons, applyText_of_refusal h config']
    rfl

/-! ## Lines and pieces -/

/-- The pieces of a line make the same of it as the whole: up to the first line that is refused,
each has all of its setting in one piece and no other piece with a setting, and of the line that is
refused the first setting in a piece is refused with the same code. -/
def ReadAlike (config : AdaptiveConfig D) : List Bytes → Prop
  | [] => True
  | line :: lines =>
    match firstRefusal config [line] with
    | some code => firstRefusal config (fgetsAll 256 line) = some code
    | none => Whole isSpace 0x23 0x0a 255 line ∧ ReadAlike config lines

instance decidableReadAlike (config : AdaptiveConfig D) :
    (lines : List Bytes) → Decidable (ReadAlike config lines)
  | [] => .isTrue trivial
  | line :: lines => by
    unfold ReadAlike
    have := decidableReadAlike config lines
    split <;> infer_instance

theorem readAlike_of_whole {lines : List Bytes}
    (h : ∀ line ∈ lines, Whole isSpace 0x23 0x0a 255 line) (config : AdaptiveConfig D) :
    ReadAlike config lines := by
  induction lines with
  | nil => trivial
  | cons line lines ih =>
    have hline := h line List.mem_cons_self
    have hsame : settings (fgetsAll 256 line) = settings [line] := hline.contents_eq (by decide)
    rw [ReadAlike]
    cases hrefusal : firstRefusal config [line] with
    | some code =>
      rw [firstRefusal, ← hsame] at hrefusal
      exact hrefusal
    | none => exact ⟨hline, ih fun line' h' => h line' (List.mem_cons_of_mem _ h')⟩

theorem readAlike_of_short {file : Bytes} (h : ∀ line ∈ file.splitOn 0x0a, line.length ≤ 255)
    (config : AdaptiveConfig D) : ReadAlike config (file.splitOn 0x0a) :=
  readAlike_of_whole (fun line hline =>
    whole_of_length_le (notMem_of_mem_splitOn hline) (by decide) (h line hline)) config

theorem foldlM_applyLine {config : AdaptiveConfig D} {lines : List Bytes}
    (h : ReadAlike config lines) (config' : AdaptiveConfig D) :
    (lines.flatMap fun line => settings (fgetsAll 256 line)).foldlM applyText config' =
      lines.foldlM applyLine config' := by
  induction lines generalizing config' with
  | nil => rfl
  | cons line lines ih =>
    rw [List.flatMap_cons, List.foldlM_cons, applyLine_eq]
    rw [ReadAlike] at h
    cases hrefusal : firstRefusal config [line] with
    | some code =>
      rw [hrefusal] at h
      have hline := foldlM_of_firstRefusal hrefusal config' []
      rw [List.append_nil] at hline
      rw [hline, foldlM_of_firstRefusal h config']
      rfl
    | none =>
      rw [hrefusal] at h
      have hsame : settings (fgetsAll 256 line) = settings [line] :=
        h.1.contents_eq (by decide)
      rw [hsame, List.foldlM_append]
      exact congrArg (_ >>= ·) (funext fun config'' => ih h.2 config'')

omit [CDouble D] [CStrtod D] in
theorem cString_eq_self {line : Bytes} (h : 0 ∉ line) : cString line = line := by
  rw [cString, List.takeWhile_eq_self_iff]
  intro c hc
  have hne : c ≠ 0 := fun heq => h (heq ▸ hc)
  simpa using hne

/-- The body of the loop does what the reference does with a line. -/
theorem loadLine_cases {line : Bytes} (hnul : 0 ∉ line) (config : AdaptiveConfig D)
    (lineNumber : UInt32) :
    (∃ config', loadLine config lineNumber line = .ok config' ∧ applyLine config line = .ok config') ∨
      ∃ e, loadLine config lineNumber line = .error e ∧
        applyLine config line = .error (config, e.code) := by
  rw [loadLine, applyLine, cString_eq_self hnul]
  by_cases hblank : trim (line.takeWhile (· ≠ 0x23)) = []
  · left
    simp only [if_pos hblank]
    exact ⟨config, rfl, rfl⟩
  simp only [if_neg hblank]
  rw [applyText]
  cases cutAt 0x3d (trim (line.takeWhile (· ≠ 0x23))) with
  | none =>
    right
    exact ⟨_, rfl, rfl⟩
  | some parts =>
    obtain ⟨key, value⟩ := parts
    dsimp only
    cases applyKey config (trim key) (trim value) with
    | error code =>
      right
      exact ⟨_, rfl, rfl⟩
    | ok handled =>
      cases handled with
      | none =>
        right
        exact ⟨_, rfl, rfl⟩
      | some config' =>
        left
        exact ⟨config', rfl, rfl⟩

omit [CDouble D] [CStrtod D] in
theorem settings_cons (line : Bytes) (lines : List Bytes) :
    settings (line :: lines) = settings [line] ++ settings lines :=
  contents_append [line] lines

/-- The loop takes the settings in the buffers one after the other. -/
theorem outcome_loadLines {lines : List Bytes} (hnul : ∀ line ∈ lines, 0 ∉ line)
    (config : AdaptiveConfig D) (lineNumber : UInt32) :
    (loadLines config lineNumber lines).outcome =
      match (settings lines).foldlM applyText config with
      | .error (config, code) => (config, .error code)
      | .ok config => (config, .ok ()) := by
  induction lines generalizing config lineNumber with
  | nil => rfl
  | cons line lines ih =>
    have hlines : ∀ line ∈ lines, 0 ∉ line := fun line h => hnul line (List.mem_cons_of_mem _ h)
    rw [settings_cons, List.foldlM_append, ← applyLine_eq, loadLines]
    rcases loadLine_cases (hnul line List.mem_cons_self) config (lineNumber + 1) with
      ⟨config', hload, happly⟩ | ⟨e, hload, happly⟩
    · rw [hload, happly]
      exact ih hlines config' (lineNumber + 1)
    · rw [hload, happly]
      rfl

omit [CDouble D] [CStrtod D] in
theorem notMem_of_mem_fgetsAll {file line : Bytes} (h : 0 ∉ file) (hline : line ∈ fgetsAll 256 file) :
    0 ∉ line := by
  intro hmem
  apply h
  rw [← flatten_readAll 0x0a (by decide : 0 < 255) file]
  exact List.mem_flatten_of_mem hline hmem

theorem settings_fgetsAll (file : Bytes) :
    settings (fgetsAll 256 file) =
      (file.splitOn 0x0a).flatMap fun line => settings (fgetsAll 256 line) :=
  contents_readAll (by decide) (by decide) file

theorem outcome_configLoad {file : Bytes} (hnul : 0 ∉ file) (config : AdaptiveConfig D) :
    (configLoad config (some ⟨file, false⟩)).outcome =
      match (settings (fgetsAll 256 file)).foldlM applyText config with
      | .error (config, code) => (config, .error code)
      | .ok config => (config, (configValidate config).mapError (·.code)) := by
  have hlines := outcome_loadLines (fun line h => notMem_of_mem_fgetsAll hnul h) config 0
  rw [configLoad]
  cases hrun : (settings (fgetsAll 256 file)).foldlM applyText config with
  | error stopped =>
    obtain ⟨config', code⟩ := stopped
    rw [hrun] at hlines
    dsimp only
    cases hreport : (loadLines config 0 (fgetsAll 256 file)).report with
    | error e =>
      rw [LoadResult.outcome, hreport] at hlines
      exact hlines
    | ok u =>
      rw [LoadResult.outcome, hreport] at hlines
      cases hlines
  | ok config' =>
    rw [hrun] at hlines
    dsimp only
    cases hreport : (loadLines config 0 (fgetsAll 256 file)).report with
    | error e =>
      rw [LoadResult.outcome, hreport] at hlines
      cases hlines
    | ok u =>
      have hconfig : (loadLines config 0 (fgetsAll 256 file)).config = config' :=
        congrArg Prod.fst hlines
      rw [← hconfig]
      rfl

theorem outcome_of_readAlike {file : Bytes} (hnul : 0 ∉ file) {config : AdaptiveConfig D}
    (h : ReadAlike config (file.splitOn 0x0a)) :
    (configLoad config (some ⟨file, false⟩)).outcome = referenceLoad config file := by
  rw [outcome_configLoad hnul, settings_fgetsAll, foldlM_applyLine h, referenceLoad]

/-! ## Files of comments -/

def OnlyComments (file : Bytes) : Prop := ∀ line ∈ file.splitOn 0x0a, settings [line] = []

instance {file : Bytes} : Decidable (OnlyComments file) :=
  inferInstanceAs (Decidable (∀ line ∈ file.splitOn 0x0a, settings [line] = []))

theorem referenceLoad_of_comments {file : Bytes} (h : OnlyComments file)
    (config : AdaptiveConfig D) :
    referenceLoad config file = (config, (configValidate config).mapError (·.code)) := by
  have hrun : ∀ lines : List Bytes, (∀ line ∈ lines, settings [line] = []) →
      lines.foldlM applyLine config = .ok config := by
    intro lines
    induction lines with
    | nil => exact fun _ => rfl
    | cons line lines ih =>
      intro hlines
      rw [List.foldlM_cons, applyLine_eq, hlines line List.mem_cons_self]
      exact ih fun line h => hlines line (List.mem_cons_of_mem _ h)
  rw [referenceLoad, hrun _ h]

theorem readAlike_iff_of_comments {lines : List Bytes} (h : ∀ line ∈ lines, settings [line] = [])
    (config : AdaptiveConfig D) :
    ReadAlike config lines ↔ ∀ line ∈ lines, settings (fgetsAll 256 line) = [] := by
  induction lines with
  | nil => simp [ReadAlike]
  | cons line lines ih =>
    have hline := h line List.mem_cons_self
    have haccepted : firstRefusal config [line] = none := by
      rw [firstRefusal, hline]
      rfl
    have hwhole : Whole isSpace 0x23 0x0a 255 line ↔ settings (fgetsAll 256 line) = [] := by
      have hlength : (contents isSpace 0x23 [line]).length = 0 := by
        rw [show contents isSpace 0x23 [line] = [] from hline]
        rfl
      rw [Whole, hlength, List.length_eq_zero_iff]
      exact Iff.rfl
    rw [ReadAlike, haccepted, List.forall_mem_cons, ← ih fun line h' =>
      h line (List.mem_cons_of_mem _ h')]
    exact and_congr hwhole Iff.rfl

/-- Settings stop with a code, or the last of them has written to its slot. -/
theorem foldlM_applyText_cases {texts : List Bytes} (hne : texts ≠ []) :
    (∃ code, ∀ config : AdaptiveConfig D, ∃ config',
      texts.foldlM applyText config = .error (config', code)) ∨
    ∃ (slot : Slot) (v : slot.Value D), ∀ config, ∃ config',
      texts.foldlM applyText config = .ok (slot.set v config') := by
  induction texts with
  | nil => exact absurd rfl hne
  | cons text texts ih =>
    rcases applyText_settles (D := D) text with ⟨code, hrefuses⟩ | ⟨slot, v, hwrites⟩
    · left
      refine ⟨code, fun config => ⟨config, ?_⟩⟩
      rw [List.foldlM_cons, hrefuses]
      rfl
    by_cases hlast : texts = []
    · right
      refine ⟨slot, v, fun config => ⟨config, ?_⟩⟩
      rw [hlast, List.foldlM_cons, hwrites]
      rfl
    · rcases ih hlast with ⟨code, hstops⟩ | ⟨slot', v', hlater⟩
      · left
        refine ⟨code, fun config => ?_⟩
        rw [List.foldlM_cons, hwrites]
        exact hstops (slot.set v config)
      · right
        refine ⟨slot', v', fun config => ?_⟩
        rw [List.foldlM_cons, hwrites]
        exact hlater (slot.set v config)

/-- A file of comments in which the loader finds a setting is one that it does not read as
the reference does. -/
theorem comments_read_as_settings {file : Bytes} (hnul : 0 ∉ file) (hcomments : OnlyComments file)
    (hne : settings (fgetsAll 256 file) ≠ []) :
    ∃ config : AdaptiveConfig ℚ,
      (configLoad config (some ⟨file, false⟩)).outcome ≠ referenceLoad config file := by
  rcases foldlM_applyText_cases (D := ℚ) hne with ⟨code, hstops⟩ | ⟨slot, v, hwrites⟩
  · refine ⟨smallConfig, fun heq => ?_⟩
    obtain ⟨config', hrun⟩ := hstops smallConfig
    have hvalid : configValidate smallConfig = .ok () := by decide +kernel
    rw [outcome_configLoad hnul, hrun, referenceLoad_of_comments hcomments, hvalid] at heq
    cases congrArg Prod.snd heq
  · obtain ⟨w, hw⟩ := exists_ne v
    refine ⟨slot.set w smallConfig, fun heq => ?_⟩
    obtain ⟨config', hrun⟩ := hwrites (slot.set w smallConfig)
    rw [outcome_configLoad hnul, hrun, referenceLoad_of_comments hcomments] at heq
    have hslot := congrArg (fun outcome => slot.get outcome.1) heq
    rw [Slot.get_set, Slot.get_set] at hslot
    exact hw hslot.symm

/-- The loader does what the reference does where the pieces of the lines make the same of them as
the wholes. For a file of comments alone this is also necessary. -/
theorem configLoad_readsLines {file : Bytes} (hnul : 0 ∉ file) :
    (∀ config : AdaptiveConfig D, ReadAlike config (file.splitOn 0x0a) →
      (configLoad config (some ⟨file, false⟩)).outcome = referenceLoad config file) ∧
    (OnlyComments file →
      ((∀ config : AdaptiveConfig ℚ,
        (configLoad config (some ⟨file, false⟩)).outcome = referenceLoad config file) ↔
      ∀ config : AdaptiveConfig ℚ, ReadAlike config (file.splitOn 0x0a))) := by
  refine ⟨fun config h => outcome_of_readAlike hnul h, fun hcomments => ⟨fun hsame config => ?_,
    fun h config => outcome_of_readAlike hnul (h config)⟩⟩
  rw [readAlike_iff_of_comments hcomments, ← List.flatMap_eq_nil_iff, ← settings_fgetsAll]
  by_contra hne
  obtain ⟨config', hdiffers⟩ := comments_read_as_settings hnul hcomments hne
  exact hdiffers (hsame config')

def commentedFile : Bytes := ascii "coap.uri_path = meter # the name\n" ++ List.replicate 300 0x23

theorem configLoad_readsLines_commented :
    (configLoad smallConfig (some ⟨commentedFile, false⟩)).outcome =
      referenceLoad smallConfig commentedFile :=
  (configLoad_readsLines (D := ℚ) (by decide +kernel)).1 smallConfig (by decide +kernel)

def longComment : Bytes := 0x23 :: List.replicate 254 0x2d ++ ascii "coap.uri_path=moved\n"

theorem longComment_moves_path :
    0 ∉ longComment ∧ OnlyComments longComment ∧
      (configLoad smallConfig (some ⟨longComment, false⟩)).config.uriPath.chars = ascii "moved" ∧
      (configLoad smallConfig (some ⟨longComment, false⟩)).report = .ok () ∧
      (referenceLoad smallConfig longComment).1.uriPath.chars = ascii "telemetry" := by
  decide +kernel

end AdaptiveLowpan
