import AdaptiveLowpan.ConfigAddresses
import AdaptiveLowpan.ConfigLoad

/-! # The order of the lines

The lines of a configuration file that fit in the buffer of the loader are settings for slots, one
by one. Where no two are for the same slot, their order does not matter. -/

namespace AdaptiveLowpan
open ByteWords TextLines

variable {D : Type} [CDouble D] [CStrtod D]

/-! ## Lines as settings -/

def lineText (line : Bytes) : Bytes := trim ((cString line).takeWhile (· ≠ 0x23))

def lineAddress (line : Bytes) : Option Slot :=
  match cutAt 0x3d (lineText line) with
  | none => none
  | some (key, _) =>
    match keyAddress (trim key) with
    | .ok address => address
    | .error _ => none

def lineSetting (line : Bytes) : Handled (Setting D) :=
  if lineText line = [] then .ok none
  else match cutAt 0x3d (lineText line) with
    | none => .error .format
    | some (key, value) =>
      match keySetting (trim key) (trim value) with
      | .ok none => .error .format
      | setting => setting

def LinesApply (D : Type) [CDouble D] [CStrtod D] (lines : List Bytes) : Prop :=
  ∀ line ∈ lines, ∃ setting : Option (Setting D), lineSetting line = .ok setting

def lineSettings (lines : List Bytes) : List (Setting D) :=
  lines.filterMap fun line => (lineSetting line).toOption.join

theorem linesApply_cons (line : Bytes) (lines : List Bytes) :
    LinesApply D (line :: lines) ↔
      (∃ setting : Option (Setting D), lineSetting line = .ok setting) ∧ LinesApply D lines :=
  List.forall_mem_cons

theorem lineSettings_cons (line : Bytes) (lines : List Bytes) :
    (lineSettings (line :: lines) : List (Setting D)) =
      (lineSetting line).toOption.join.toList ++ lineSettings lines := by
  rw [lineSettings, lineSettings, List.filterMap_cons]
  cases (lineSetting line : Handled (Setting D)).toOption.join <;> rfl

omit [CDouble D] [CStrtod D] in
theorem cString_append_of_mem {line : Bytes} (rest : Bytes) (h : 0 ∈ line) :
    cString (line ++ rest) = cString line := by
  rw [cString, cString, List.takeWhile_append, if_neg]
  intro hlength
  have hall := List.takeWhile_eq_self_iff.mp
    ((List.takeWhile_prefix (p := (· ≠ 0))).eq_of_length hlength) 0 h
  simp at hall

omit [CDouble D] [CStrtod D] in
theorem lineText_append_newline (line : Bytes) : lineText (line ++ [0x0a]) = lineText line := by
  by_cases h : 0 ∈ line
  · rw [lineText, cString_append_of_mem _ h, lineText]
  · have h' : 0 ∉ line ++ [0x0a] := by simp [h]
    rw [lineText, lineText, cString_eq_self h, cString_eq_self h']
    exact content_append_left line (content_terminator 0x23 rfl)

theorem lineSetting_append_newline (line : Bytes) :
    (lineSetting (line ++ [0x0a]) : Handled (Setting D)) = lineSetting line := by
  rw [lineSetting, lineSetting, lineText_append_newline]

theorem lineSetting_cases (line : Bytes) :
    (lineText line = [] ∧ (lineSetting line : Handled (Setting D)) = .ok none) ∨
      (∃ key value setting, lineText line ≠ [] ∧ cutAt 0x3d (lineText line) = some (key, value) ∧
        keySetting (trim key) (trim value) = .ok (some setting) ∧
        (lineSetting line : Handled (Setting D)) = .ok (some setting)) ∨
      ∃ code, (lineSetting line : Handled (Setting D)) = .error code ∧
        ∀ (config : AdaptiveConfig D) lineNumber, ∃ e,
          loadLine config lineNumber line = .error e := by
  by_cases hblank : lineText line = []
  · exact .inl ⟨hblank, if_pos hblank⟩
  right
  cases hcut : cutAt 0x3d (lineText line) with
  | none =>
    right
    refine ⟨.format, ?_, fun config lineNumber =>
      ⟨⟨.format, s!"line {lineNumber}: expected key=value"⟩, (if_neg hblank).trans ?_⟩⟩
    · rw [lineSetting, if_neg hblank, hcut]
    · rw [show cutAt 0x3d (trim ((cString line).takeWhile (· ≠ 0x23))) = none from hcut]
  | some parts =>
    obtain ⟨key, value⟩ := parts
    have hcut' : cutAt 0x3d (trim ((cString line).takeWhile (· ≠ 0x23))) = some (key, value) := hcut
    rcases hsetting : (keySetting (trim key) (trim value) : Handled (Setting D)) with
      code | _ | setting
    · right
      refine ⟨code, ?_, fun config lineNumber =>
        ⟨⟨code, s!"line {lineNumber}: invalid key or value"⟩, (if_neg hblank).trans ?_⟩⟩
      · simp only [lineSetting, if_neg hblank, hcut, hsetting]
      · simp only [hcut', applyKey_eq, hsetting]
        rfl
    · right
      refine ⟨.format, ?_, fun config lineNumber =>
        ⟨⟨.format, s!"line {lineNumber}: invalid key or value"⟩, (if_neg hblank).trans ?_⟩⟩
      · simp only [lineSetting, if_neg hblank, hcut, hsetting]
      · simp only [hcut', applyKey_eq, hsetting]
        rfl
    · left
      refine ⟨key, value, setting, hblank, rfl, hsetting, ?_⟩
      simp only [lineSetting, if_neg hblank, hcut, hsetting]

theorem lineAddress_of_setting {line : Bytes} {setting : Option (Setting D)}
    (h : lineSetting line = .ok setting) : lineAddress line = setting.map Setting.slot := by
  rcases lineSetting_cases (D := D) line with ⟨hblank, hline⟩ |
    ⟨key, value, setting', -, hcut, hsetting, hline⟩ | ⟨code, hline, -⟩
  · rw [h] at hline
    cases hline
    rw [lineAddress, hblank]
    rfl
  · rw [h] at hline
    cases hline
    rw [lineAddress, hcut]
    simp only [keyAddress_of_keySetting hsetting]
    rfl
  · rw [h] at hline
    cases hline

/-! ## Runs -/

theorem loadLine_of_setting {line : Bytes} {setting : Option (Setting D)}
    (h : lineSetting line = .ok setting) (config : AdaptiveConfig D) (lineNumber : UInt32) :
    loadLine config lineNumber line = .ok (setting.elim config (Setting.apply config)) := by
  rcases lineSetting_cases (D := D) line with ⟨hblank, hline⟩ |
    ⟨key, value, setting', hne, hcut, hsetting, hline⟩ | ⟨code, hline, -⟩
  · rw [h] at hline
    cases hline
    exact if_pos hblank
  · rw [h] at hline
    cases hline
    refine (if_neg hne).trans ?_
    rw [show cutAt 0x3d (trim ((cString line).takeWhile (· ≠ 0x23))) = some (key, value) from hcut]
    simp only [applyKey_eq, hsetting]
    rfl
  · rw [h] at hline
    cases hline

theorem loadLines_of_apply {lines : List Bytes} (h : LinesApply D lines) (config : AdaptiveConfig D)
    (lineNumber : UInt32) :
    loadLines config lineNumber lines =
      ⟨(lineSettings lines).foldl Setting.apply config, .ok ()⟩ := by
  induction lines generalizing config lineNumber with
  | nil => rfl
  | cons line lines ih =>
    obtain ⟨setting, hsetting⟩ := h line List.mem_cons_self
    have hlines : LinesApply D lines := fun line h' => h line (List.mem_cons_of_mem _ h')
    rw [loadLines, loadLine_of_setting hsetting]
    dsimp only
    rw [ih hlines]
    cases setting with
    | none => simp [lineSettings_cons, hsetting, Except.toOption]
    | some setting => simp [lineSettings_cons, hsetting, Except.toOption]

theorem linesApply_of_loadLines {lines : List Bytes} {config : AdaptiveConfig D}
    {lineNumber : UInt32} (h : (loadLines config lineNumber lines).report = .ok ()) :
    LinesApply D lines := by
  induction lines generalizing config lineNumber with
  | nil => exact fun _ hmem => absurd hmem List.not_mem_nil
  | cons line lines ih =>
    have hline : ∃ setting : Option (Setting D), lineSetting line = .ok setting := by
      rcases lineSetting_cases (D := D) line with ⟨-, hline⟩ | ⟨-, -, setting, -, -, -, hline⟩ |
        ⟨code, -, hload⟩
      · exact ⟨none, hline⟩
      · exact ⟨some setting, hline⟩
      · obtain ⟨e, he⟩ := hload config (lineNumber + 1)
        rw [loadLines, he] at h
        cases h
    obtain ⟨setting, hsetting⟩ := hline
    rw [loadLines, loadLine_of_setting hsetting] at h
    exact List.forall_mem_cons.mpr ⟨⟨setting, hsetting⟩, ih h⟩

omit [CDouble D] [CStrtod D] in
/-- Settings for different slots may be applied in any order. -/
theorem foldl_apply_perm {settings settings' : List (Setting D)} (h : settings.Perm settings')
    (hslots : (settings.map Setting.slot).Nodup) (config : AdaptiveConfig D) :
    settings.foldl Setting.apply config = settings'.foldl Setting.apply config := by
  refine h.foldl_eq' (fun s hs t ht config => ?_) config
  by_cases hsame : t.slot = s.slot
  · rw [List.inj_on_of_nodup_map hslots ht hs hsame]
  · exact Slot.set_comm hsame s.value t.value config

/-- The buffers that a file of short lines fills hold its lines, but for a last line without a
character. -/
theorem fgetsAll_of_short {file : Bytes} (h : ∀ line ∈ file.splitOn 0x0a, line.length < 255) :
    (LinesApply D (fgetsAll 256 file) ↔ LinesApply D (file.splitOn 0x0a)) ∧
      (lineSettings (fgetsAll 256 file) : List (Setting D)) = lineSettings (file.splitOn 0x0a) := by
  induction file using line_induction (0x0a : UInt8) with
  | last line hline =>
    rw [List.splitOn_eq_singleton hline] at h ⊢
    by_cases hnil : line = []
    · have hempty : fgetsAll 256 [] = [] := readAll_nil
      have hblank : (lineSetting [] : Handled (Setting D)) = .ok none := rfl
      rw [hnil, hempty, linesApply_cons, lineSettings_cons, hblank]
      exact ⟨⟨fun hall => ⟨⟨none, rfl⟩, hall⟩, fun hall => hall.2⟩, rfl⟩
    · have hlength := (h line List.mem_cons_self).le
      have hone : fgetsAll 256 line = line.take 255 :: fgetsAll 256 (line.drop 255) :=
        readAll_last hline (by decide) hnil
      have hempty : fgetsAll 256 [] = [] := readAll_nil
      rw [hone, List.take_of_length_le hlength, List.drop_of_length_le hlength, hempty]
      exact ⟨Iff.rfl, rfl⟩
  | more line rest hline ih =>
    rw [List.splitOn_append_cons_self_of_not_mem hline] at h ⊢
    obtain ⟨hshort, hrest⟩ := List.forall_mem_cons.mp h
    obtain ⟨hiff, hsame⟩ := ih hrest
    have hcons : fgetsAll 256 (line ++ 0x0a :: rest) = (line ++ [0x0a]) :: fgetsAll 256 rest :=
      readAll_short rest hline hshort
    rw [hcons, linesApply_cons, linesApply_cons, lineSettings_cons, lineSettings_cons,
      lineSetting_append_newline, hiff, hsame]
    exact ⟨Iff.rfl, rfl⟩

/-- A file of short lines that all apply is loaded as the settings on them. -/
theorem configLoad_of_apply {file : Bytes} (hshort : ∀ line ∈ file.splitOn 0x0a, line.length < 255)
    (happly : LinesApply D (file.splitOn 0x0a)) (config : AdaptiveConfig D) (readError : Bool) :
    configLoad config (some ⟨file, readError⟩) =
      let loaded := (lineSettings (file.splitOn 0x0a)).foldl Setting.apply config
      if readError then ⟨loaded, .error ⟨.io, "error while reading configuration"⟩⟩
      else ⟨loaded, configValidate loaded⟩ := by
  obtain ⟨hiff, hsame⟩ := fgetsAll_of_short (D := D) hshort
  rw [configLoad, loadLines_of_apply (hiff.mpr happly), hsame]

theorem map_slot_lineSettings {lines : List Bytes} (h : LinesApply D lines) :
    (lineSettings lines : List (Setting D)).map Setting.slot = lines.filterMap lineAddress := by
  induction lines with
  | nil => rfl
  | cons line lines ih =>
    obtain ⟨⟨setting, hsetting⟩, hlines⟩ := (linesApply_cons line lines).mp h
    rw [lineSettings_cons, List.map_append, ih hlines, List.filterMap_cons,
      lineAddress_of_setting hsetting, hsetting]
    cases setting <;> rfl

/-- A file whose lines address different slots may be written in any order. -/
theorem configLoad_perm {config : AdaptiveConfig D} {file file' : Bytes} (readError : Bool)
    (hshort : ∀ line ∈ file.splitOn 0x0a, line.length < 255)
    (happly : (loadLines config 0 (fgetsAll 256 file)).report = .ok ())
    (hslots : ((file.splitOn 0x0a).filterMap lineAddress).Nodup)
    (hperm : (file.splitOn 0x0a).Perm (file'.splitOn 0x0a)) :
    configLoad config (some ⟨file', readError⟩) = configLoad config (some ⟨file, readError⟩) := by
  have hlines := (fgetsAll_of_short hshort).1.mp (linesApply_of_loadLines happly)
  have hshort' : ∀ line ∈ file'.splitOn 0x0a, line.length < 255 :=
    fun line hline => hshort line (hperm.mem_iff.mpr hline)
  have hlines' : LinesApply D (file'.splitOn 0x0a) :=
    fun line hline => hlines line (hperm.mem_iff.mpr hline)
  have hloaded : (lineSettings (file.splitOn 0x0a)).foldl Setting.apply config =
      (lineSettings (file'.splitOn 0x0a)).foldl Setting.apply config :=
    foldl_apply_perm (hperm.filterMap _) ((map_slot_lineSettings hlines).symm ▸ hslots) config
  rw [configLoad_of_apply hshort hlines, configLoad_of_apply hshort' hlines', hloaded]

/-- Settings do not depend on each other: each is for the one slot that its key addresses, two keys
address the same slot exactly where they are the same, and lines for different slots may be
reordered. -/
theorem settings_independent :
    (∀ (config config' : AdaptiveConfig D) (key value : Bytes),
      applyKey config key value = .ok (some config') →
      ∃ slot, keyAddress key = .ok (some slot) ∧
        (∃ v : slot.Value D, ∀ config, applyKey config key value = .ok (some (slot.set v config))) ∧
        ∀ other ≠ slot, other.get config' = other.get config) ∧
    (∀ (config₁ config₁' config₂ config₂' : AdaptiveConfig D) (key key' value value' : Bytes),
      applyKey config₁ key value = .ok (some config₁') →
      applyKey config₂ key' value' = .ok (some config₂') →
      (keyAddress key = keyAddress key' ↔ SameKey key key')) ∧
    ∀ (config : AdaptiveConfig D) (file file' : Bytes) (readError : Bool),
      (∀ line ∈ file.splitOn 0x0a, line.length < 255) →
      (loadLines config 0 (fgetsAll 256 file)).report = .ok () →
      ((file.splitOn 0x0a).filterMap lineAddress).Nodup →
      (file.splitOn 0x0a).Perm (file'.splitOn 0x0a) →
      configLoad config (some ⟨file', readError⟩) = configLoad config (some ⟨file, readError⟩) := by
  refine ⟨fun config config' key value h => ?_,
    fun config₁ config₁' config₂ config₂' key key' value value' h h' => ?_,
    fun config file file' readError => configLoad_perm readError⟩
  · obtain ⟨⟨slot, v⟩, hsetting, rfl⟩ := keySetting_of_applyKey h
    refine ⟨slot, keyAddress_of_keySetting hsetting, ⟨v, fun config => ?_⟩,
      fun other hother => Slot.get_set_of_ne hother v config⟩
    rw [applyKey_eq, hsetting]
    rfl
  · obtain ⟨setting, hsetting, -⟩ := keySetting_of_applyKey h
    obtain ⟨setting', hsetting', -⟩ := keySetting_of_applyKey h'
    have haddress := keyAddress_of_keySetting hsetting
    have haddress' := keyAddress_of_keySetting hsetting'
    rw [← keyAddress_eq_iff haddress haddress', haddress, haddress']
    simp

theorem settings_independent_means :
    configLoad (configDefaults : AdaptiveConfig ℚ)
      (some ⟨ascii "hmm.mean.GOOD.loss = 1\nhmm.mean.good.RTT=2", false⟩) =
    configLoad configDefaults
      (some ⟨ascii "hmm.mean.good.RTT=2\nhmm.mean.GOOD.loss = 1", false⟩) := by
  refine settings_independent.2.2 _ _ _ false ?_ ?_ ?_ ?_
  · decide +kernel
  · decide +kernel
  · decide +kernel
  · decide +kernel

end AdaptiveLowpan
