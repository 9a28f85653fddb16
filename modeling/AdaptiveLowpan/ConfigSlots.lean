import AdaptiveLowpan.ConfigKeys

/-! # What a setting may change

A configuration is a collection of slots. The key alone decides which of them is addressed, the
value is read without looking at the configuration, and an accepted setting writes it there. -/

namespace AdaptiveLowpan
open ByteWords

/-- The numbers of a configuration, one by one, and its path. -/
inductive Slot where
  | baselineAlpha | baselineEpsilon | emissionAlpha | transitionForgetting
  | transitionSmoothing | transitionPriorStrength | minEmissionVariance
  | recoveryHold | windowSize | waveletLevels | contentFormat | uriPath
  | initialProbability (state : AdaptiveState)
  | thresholdGain (state : AdaptiveState)
  | quantBits (state : AdaptiveState)
  | blockSzx (state : AdaptiveState)
  | samplingFactor (state : AdaptiveState)
  | transitionPrior (row column : AdaptiveState)
  | emissionMean (state : AdaptiveState) (metric : AdaptiveMetric)
  | emissionVariance (state : AdaptiveState) (metric : AdaptiveMetric)
  deriving DecidableEq

namespace Slot

variable {D : Type}

abbrev Value (D : Type) : Slot → Type
  | recoveryHold | waveletLevels | contentFormat | quantBits _ => UInt32
  | windowSize => ℕ
  | uriPath => UriPath
  | blockSzx _ => UInt8
  | _ => D

def get : (slot : Slot) → AdaptiveConfig D → slot.Value D
  | baselineAlpha, config => config.baselineAlpha
  | baselineEpsilon, config => config.baselineEpsilon
  | emissionAlpha, config => config.emissionAlpha
  | transitionForgetting, config => config.transitionForgetting
  | transitionSmoothing, config => config.transitionSmoothing
  | transitionPriorStrength, config => config.transitionPriorStrength
  | minEmissionVariance, config => config.minEmissionVariance
  | recoveryHold, config => config.recoveryHold
  | windowSize, config => config.windowSize
  | waveletLevels, config => config.waveletLevels
  | contentFormat, config => config.contentFormat
  | uriPath, config => config.uriPath
  | initialProbability state, config => config.initialProbability state
  | thresholdGain state, config => config.thresholdGain state
  | quantBits state, config => config.quantBits state
  | blockSzx state, config => config.blockSzx state
  | samplingFactor state, config => config.samplingFactor state
  | transitionPrior row column, config => config.transitionPrior row column
  | emissionMean state metric, config => config.emissionMean state metric
  | emissionVariance state metric, config => config.emissionVariance state metric

def updateEntry {ι κ α : Type} [DecidableEq ι] [DecidableEq κ] (table : ι → κ → α) (i : ι) (k : κ)
    (v : α) : ι → κ → α :=
  Function.update table i (Function.update (table i) k v)

def set : (slot : Slot) → slot.Value D → AdaptiveConfig D → AdaptiveConfig D
  | baselineAlpha, v, config => { config with baselineAlpha := v }
  | baselineEpsilon, v, config => { config with baselineEpsilon := v }
  | emissionAlpha, v, config => { config with emissionAlpha := v }
  | transitionForgetting, v, config => { config with transitionForgetting := v }
  | transitionSmoothing, v, config => { config with transitionSmoothing := v }
  | transitionPriorStrength, v, config => { config with transitionPriorStrength := v }
  | minEmissionVariance, v, config => { config with minEmissionVariance := v }
  | recoveryHold, v, config => { config with recoveryHold := v }
  | windowSize, v, config => { config with windowSize := v }
  | waveletLevels, v, config => { config with waveletLevels := v }
  | contentFormat, v, config => { config with contentFormat := v }
  | uriPath, v, config => { config with uriPath := v }
  | initialProbability state, v, config =>
    { config with initialProbability := Function.update config.initialProbability state v }
  | thresholdGain state, v, config =>
    { config with thresholdGain := Function.update config.thresholdGain state v }
  | quantBits state, v, config =>
    { config with quantBits := Function.update config.quantBits state v }
  | blockSzx state, v, config =>
    { config with blockSzx := Function.update config.blockSzx state v }
  | samplingFactor state, v, config =>
    { config with samplingFactor := Function.update config.samplingFactor state v }
  | transitionPrior row column, v, config =>
    { config with transitionPrior := updateEntry config.transitionPrior row column v }
  | emissionMean state metric, v, config =>
    { config with emissionMean := updateEntry config.emissionMean state metric v }
  | emissionVariance state metric, v, config =>
    { config with emissionVariance := updateEntry config.emissionVariance state metric v }

@[simp] theorem get_set (slot : Slot) (v : slot.Value D) (config : AdaptiveConfig D) :
    slot.get (slot.set v config) = v := by
  cases slot <;> simp [get, set, updateEntry]

theorem updateEntry_apply {ι κ α : Type} [DecidableEq ι] [DecidableEq κ] (table : ι → κ → α)
    (i i' : ι) (k k' : κ) (v : α) :
    updateEntry table i k v i' k' = if i' = i ∧ k' = k then v else table i' k' := by
  by_cases hi : i' = i
  · subst hi
    simp [updateEntry, Function.update_apply]
  · simp [updateEntry, hi]

theorem get_set_of_ne {slot other : Slot} (h : other ≠ slot) (v : slot.Value D)
    (config : AdaptiveConfig D) : other.get (slot.set v config) = other.get config := by
  cases slot <;> cases other <;> first
    | rfl
    | simp_all [get, set, updateEntry_apply]

theorem config_ext {config config' : AdaptiveConfig D} (h : ∀ slot, get slot config = get slot config') :
    config = config' := by
  have hinitial := funext fun state => h (initialProbability state)
  have htransition := funext fun row => funext fun column => h (transitionPrior row column)
  have hmean := funext fun state => funext fun metric => h (emissionMean state metric)
  have hvariance := funext fun state => funext fun metric => h (emissionVariance state metric)
  have hgain := funext fun state => h (thresholdGain state)
  have hbits := funext fun state => h (quantBits state)
  have hszx := funext fun state => h (blockSzx state)
  have hfactor := funext fun state => h (samplingFactor state)
  cases config
  cases config'
  rw [AdaptiveConfig.mk.injEq]
  exact ⟨h baselineAlpha, h baselineEpsilon, h emissionAlpha, h transitionForgetting,
    h transitionSmoothing, h transitionPriorStrength, h minEmissionVariance, h recoveryHold, hinitial,
    htransition, hmean, hvariance, h windowSize, h waveletLevels, hgain, hbits, hszx, hfactor,
    h uriPath, h contentFormat⟩

/-- Two slots may be written in either order. -/
theorem set_comm {slot other : Slot} (h : other ≠ slot) (v : slot.Value D) (w : other.Value D)
    (config : AdaptiveConfig D) : other.set w (slot.set v config) = slot.set v (other.set w config) := by
  refine config_ext fun third => ?_
  by_cases hslot : third = slot
  · subst hslot
    rw [get_set_of_ne h.symm, get_set, get_set]
  by_cases hother : third = other
  · subst hother
    rw [get_set, get_set_of_ne hslot, get_set]
  · rw [get_set_of_ne hother, get_set_of_ne hslot, get_set_of_ne hslot, get_set_of_ne hother]
instance [Nontrivial D] (slot : Slot) : Nontrivial (slot.Value D) := by
  cases slot with
  | recoveryHold | waveletLevels | contentFormat | quantBits state =>
    have hwords : Nontrivial UInt32 := ⟨0, 1, by decide⟩
    exact hwords
  | windowSize => exact inferInstanceAs (Nontrivial ℕ)
  | uriPath =>
    apply nontrivial_of_ne (⟨[], by decide⟩ : UriPath) ⟨[0], by decide⟩
    intro h
    cases congrArg UriPath.chars h
  | blockSzx state =>
    have hbytes : Nontrivial UInt8 := ⟨0, 1, by decide⟩
    exact hbytes
  | _ => exact inferInstanceAs (Nontrivial D)

end Slot

/-! ## Addresses -/

def scalarKeys : List (Bytes × Slot) := [
  (ascii "baseline.alpha", .baselineAlpha),
  (ascii "baseline.epsilon", .baselineEpsilon),
  (ascii "hmm.emission_alpha", .emissionAlpha),
  (ascii "hmm.transition_forgetting", .transitionForgetting),
  (ascii "hmm.transition_smoothing", .transitionSmoothing),
  (ascii "hmm.transition_prior_strength", .transitionPriorStrength),
  (ascii "hmm.min_variance", .minEmissionVariance),
  (ascii "hmm.recovery_hold", .recoveryHold),
  (ascii "wavelet.window_size", .windowSize),
  (ascii "wavelet.levels", .waveletLevels),
  (ascii "coap.content_format", .contentFormat),
  (ascii "coap.uri_path", .uriPath)]

/-- A table of slots: the prefix of its keys, and the slot that the names after it select. -/
structure SlotTable where
  keyPrefix : Bytes
  address : Bytes → Except Failure Slot

def stateTable (keyPrefix : Bytes) (slot : AdaptiveState → Slot) : SlotTable where
  keyPrefix := keyPrefix
  address name := slot <$> stateFromName name

def pairTable {ι : Type} (columnFromName : Bytes → Except Failure ι) (keyPrefix : Bytes)
    (slot : AdaptiveState → ι → Slot) : SlotTable where
  keyPrefix := keyPrefix
  address names :=
    if names.length ≥ 64 then .error .format
    else match cutAt 0x2e names with
      | none => .error .format
      | some (name, name') => do
        let row ← stateFromName name
        let column ← columnFromName name'
        return slot row column

def slotTables : List SlotTable := [
  stateTable (ascii "hmm.initial.") .initialProbability,
  stateTable (ascii "policy.threshold_gain.") .thresholdGain,
  stateTable (ascii "policy.quant_bits.") .quantBits,
  stateTable (ascii "policy.block_szx.") .blockSzx,
  stateTable (ascii "policy.sampling_factor.") .samplingFactor,
  pairTable stateFromName (ascii "hmm.transition.") .transitionPrior,
  pairTable metricFromName (ascii "hmm.mean.") .emissionMean,
  pairTable metricFromName (ascii "hmm.variance.") .emissionVariance]

def SlotTable.find (table : SlotTable) (key : Bytes) : Handled Slot :=
  if ¬table.keyPrefix.isPrefixOf key then .ok none
  else .of (table.address (key.drop table.keyPrefix.length))

def keyAddress (key : Bytes) : Handled Slot :=
  match scalarKeys.lookup key with
  | some slot => .ok (some slot)
  | none => firstHandled (slotTables.map (·.find key))

/-! ## Settings -/

structure Setting (D : Type) where
  slot : Slot
  value : slot.Value D

variable {D : Type}

def Setting.apply (config : AdaptiveConfig D) (setting : Setting D) : AdaptiveConfig D :=
  setting.slot.set setting.value config

variable [CDouble D] [CStrtod D]

def Slot.parse : (slot : Slot) → Bytes → Except Failure (slot.Value D)
  | recoveryHold, value | waveletLevels, value | contentFormat, value | quantBits _, value =>
    UInt32.ofNat <$> parseUnsigned value
  | windowSize, value => parseUnsigned value
  | uriPath, value =>
    if hlength : value.length ≤ maxUriPath then .ok ⟨value, hlength⟩ else .error .range
  | blockSzx _, value => do
    let parsed ← parseUnsigned value
    if parsed > 255 then throw .format
    return UInt8.ofNat parsed
  | baselineAlpha, value | baselineEpsilon, value | emissionAlpha, value
  | transitionForgetting, value | transitionSmoothing, value | transitionPriorStrength, value
  | minEmissionVariance, value | initialProbability _, value | thresholdGain _, value
  | samplingFactor _, value | transitionPrior _ _, value | emissionMean _ _, value
  | emissionVariance _ _, value => parseDouble value

def Handled.setting (value : Bytes) : Handled Slot → Handled (Setting D)
  | .error code => .error code
  | .ok none => .ok none
  | .ok (some slot) => .of (Setting.mk slot <$> slot.parse value)

def keySetting (key value : Bytes) : Handled (Setting D) := (keyAddress key).setting value

omit [CDouble D] [CStrtod D] in
theorem firstHandled_into {α β : Type} (store : α → β) (handled : List (Handled α)) :
    (firstHandled handled).into store = firstHandled (handled.map (Handled.into store)) := by
  induction handled with
  | nil => rfl
  | cons first others ih =>
    match first with
    | .error code => rfl
    | .ok none => exact ih
    | .ok (some a) => rfl

theorem firstHandled_setting (value : Bytes) (addresses : List (Handled Slot)) :
    ((firstHandled addresses).setting value : Handled (Setting D)) =
      firstHandled (addresses.map (Handled.setting value)) := by
  induction addresses with
  | nil => rfl
  | cons first others ih =>
    match first with
    | .error code => rfl
    | .ok none => exact ih
    | .ok (some slot) =>
      rw [List.map_cons, firstHandled, Handled.setting]
      cases (slot.parse value : Except Failure (slot.Value D)) with
      | error code => rfl
      | ok v => rfl
      all_goals exact fun h => nomatch h

variable (config : AdaptiveConfig D) (key value : Bytes)

/-- A setting whose slot is known is applied by reading the value into that slot. -/
theorem setting_into (slot : Slot) :
    ((Handled.setting value (.ok (some slot)) : Handled (Setting D)).into (Setting.apply config)) =
      .of ((slot.parse value).map fun v => slot.set v config) := by
  rw [Handled.setting]
  cases (slot.parse value : Except Failure (slot.Value D)) <;> rfl

theorem setStateEntry_eq {α : Type} (parse : Bytes → Except Failure α) (keyPrefix : Bytes)
    (slot : AdaptiveState → Slot) {table : AdaptiveState → α}
    {store : (AdaptiveState → α) → AdaptiveConfig D}
    (h : ∀ state, ((slot state).parse value).map (fun v => (slot state).set v config) =
      (parse value).map fun v => store (Function.update table state v)) :
    (setStateEntry parse key keyPrefix value table).into store =
      (((stateTable keyPrefix slot).find key).setting value).into (Setting.apply config) := by
  by_cases hstart : keyPrefix.isPrefixOf key
  · have hfind : (stateTable keyPrefix slot).find key =
        .of (slot <$> stateFromName (key.drop keyPrefix.length)) := if_neg (not_not.mpr hstart)
    rw [setStateEntry, if_neg (not_not.mpr hstart), hfind]
    cases stateFromName (key.drop keyPrefix.length) with
    | error code => rfl
    | ok state =>
      have hentry := (congrArg Handled.of (h state)).symm.trans (setting_into config value _).symm
      refine Eq.trans ?_ hentry
      cases parse value <;> rfl
  · have hfind : (stateTable keyPrefix slot).find key = .ok none := if_pos hstart
    rw [setStateEntry, if_pos hstart, hfind]
    rfl

theorem setPairEntry_eq {ι : Type} [DecidableEq ι] (columnFromName : Bytes → Except Failure ι)
    (keyPrefix : Bytes) (slot : AdaptiveState → ι → Slot) {table : AdaptiveState → ι → D}
    {store : (AdaptiveState → ι → D) → AdaptiveConfig D}
    (h : ∀ row column, ((slot row column).parse value).map
        (fun v => (slot row column).set v config) =
      (parseDouble value).map fun v => store (Slot.updateEntry table row column v)) :
    (setPairEntry columnFromName key keyPrefix value table).into store =
      (((pairTable columnFromName keyPrefix slot).find key).setting value).into
        (Setting.apply config) := by
  by_cases hstart : keyPrefix.isPrefixOf key
  · have hfind : (pairTable columnFromName keyPrefix slot).find key =
        .of ((pairTable columnFromName keyPrefix slot).address (key.drop keyPrefix.length)) :=
      if_neg (not_not.mpr hstart)
    rw [setPairEntry, if_neg (not_not.mpr hstart), hfind, pairTable]
    dsimp only
    split
    · rfl
    cases cutAt 0x2e (key.drop keyPrefix.length) with
    | none => rfl
    | some names =>
      obtain ⟨name, name'⟩ := names
      dsimp only
      cases stateFromName name with
      | error code => rfl
      | ok row =>
        cases columnFromName name' with
        | error code => rfl
        | ok column =>
          have hentry := (congrArg Handled.of (h row column)).symm.trans
            (setting_into config value _).symm
          refine Eq.trans ?_ hentry
          cases (parseDouble value : Except Failure D) <;> rfl
  · have hfind : (pairTable columnFromName keyPrefix slot).find key = .ok none := if_pos hstart
    rw [setPairEntry, if_pos hstart, hfind]
    rfl

theorem applyStateKey_eq : applyStateKey config key value =
    (Handled.setting value (firstHandled (slotTables.map (·.find key)))).into
      (Setting.apply config) := by
  rw [firstHandled_setting, firstHandled_into, applyStateKey, setStateValue, setStateValue,
    setStateUnsigned, setStateU8, setStateValue, setMatrixValue, setEmissionValue, setEmissionValue,
    setStateEntry_eq config key value _ _ .initialProbability fun _ => rfl,
    setStateEntry_eq config key value _ _ .thresholdGain fun _ => rfl,
    setStateEntry_eq config key value _ _ .quantBits fun _ => rfl,
    setStateEntry_eq config key value _ _ .blockSzx fun _ => rfl,
    setStateEntry_eq config key value _ _ .samplingFactor fun _ => rfl,
    setPairEntry_eq config key value _ _ .transitionPrior fun _ _ => rfl,
    setPairEntry_eq config key value _ _ .emissionMean fun _ _ => rfl,
    setPairEntry_eq config key value _ _ .emissionVariance fun _ _ => rfl]
  rfl

omit [CDouble D] [CStrtod D] in
/-- No key stands for two numbers. -/
theorem lookup_scalarKeys : ∀ entry ∈ scalarKeys, scalarKeys.lookup entry.1 = some entry.2 := by
  decide +kernel

/-- Where a value is read and stored for the `i`-th of the keys that stand alone, and other keys are
left to what follows. -/
theorem applyScalar_eq {name : Bytes} {slot : Slot} (i : ℕ)
    (hi : scalarKeys[i]? = some (name, slot)) {α : Type} {parsed : Except Failure α}
    {store : α → AdaptiveConfig D}
    (h : (slot.parse value).map (fun v => slot.set v config) = parsed.map store)
    {others : Handled (AdaptiveConfig D)}
    (hothers : key ≠ name → others = (keySetting key value).into (Setting.apply config)) :
    (if key = name then
        .of do
          let v ← parsed
          return store v
      else others) = (keySetting key value).into (Setting.apply config) := by
  by_cases hkey : key = name
  · have hlookup := lookup_scalarKeys _ (List.mem_of_getElem? hi)
    rw [if_pos hkey, keySetting, keyAddress, hkey, hlookup, setting_into, h]
    cases parsed <;> rfl
  · rw [if_neg hkey, hothers hkey]

omit [CDouble D] [CStrtod D] in
theorem map_ofNat (parsed : Except Failure ℕ) (store : UInt32 → AdaptiveConfig D) :
    (UInt32.ofNat <$> parsed).map store = parsed.map fun v => store (UInt32.ofNat v) := by
  cases parsed <;> rfl

/-- What `apply_key` does is to apply a setting that is the same for every configuration. -/
theorem applyKey_eq :
    applyKey config key value = (keySetting key value).into (Setting.apply config) := by
  rw [applyKey]
  refine applyScalar_eq config key value 0 rfl rfl fun h0 => ?_
  refine applyScalar_eq config key value 1 rfl rfl fun h1 => ?_
  refine applyScalar_eq config key value 2 rfl rfl fun h2 => ?_
  refine applyScalar_eq config key value 3 rfl rfl fun h3 => ?_
  refine applyScalar_eq config key value 4 rfl rfl fun h4 => ?_
  refine applyScalar_eq config key value 5 rfl rfl fun h5 => ?_
  refine applyScalar_eq config key value 6 rfl rfl fun h6 => ?_
  refine applyScalar_eq config key value 7 rfl (map_ofNat _ _) fun h7 => ?_
  refine applyScalar_eq config key value 8 rfl rfl fun h8 => ?_
  refine applyScalar_eq config key value 9 rfl (map_ofNat _ _) fun h9 => ?_
  refine applyScalar_eq config key value 10 rfl (map_ofNat _ _) fun h10 => ?_
  refine ite_eq_iff'.mpr ⟨fun hkey => ?_, fun h11 => ?_⟩
  · have hlookup := lookup_scalarKeys (ascii "coap.uri_path", .uriPath)
      (List.mem_of_getElem? (i := 11) rfl)
    rw [keySetting, keyAddress, hkey, hlookup, setting_into, Slot.parse]
    split <;> rfl
  have hlookup : scalarKeys.lookup key = none := by
    simp [scalarKeys, h0, h1, h2, h3, h4, h5, h6, h7, h8, h9, h10, h11]
  rw [keySetting, keyAddress, hlookup, applyStateKey_eq]

theorem keyAddress_of_keySetting {key value : Bytes} {setting : Setting D}
    (h : keySetting key value = .ok (some setting)) :
    keyAddress key = .ok (some setting.slot) := by
  rw [keySetting] at h
  match haddress : keyAddress key with
  | .error code =>
    rw [haddress] at h
    cases h
  | .ok none =>
    rw [haddress] at h
    cases h
  | .ok (some slot) =>
    rw [haddress, Handled.setting] at h
    cases hvalue : (slot.parse value : Except Failure (slot.Value D)) with
    | error code =>
      rw [hvalue] at h
      cases h
    | ok v =>
      rw [hvalue] at h
      cases h
      rfl

theorem keySetting_of_applyKey {config config' : AdaptiveConfig D} {key value : Bytes}
    (h : applyKey config key value = .ok (some config')) :
    ∃ setting, keySetting key value = .ok (some setting) ∧ config' = setting.apply config := by
  rw [applyKey_eq] at h
  match hsetting : (keySetting key value : Handled (Setting D)) with
  | .error code =>
    rw [hsetting] at h
    cases h
  | .ok none =>
    rw [hsetting] at h
    cases h
  | .ok (some setting) =>
    rw [hsetting] at h
    cases h
    exact ⟨setting, rfl, rfl⟩

/-- A function that handles a key settles it alike for every configuration: it refuses the
value with an error, or does not know the key, or writes a value to a slot. -/
inductive Settles {D : Type} (handle : AdaptiveConfig D → Handled (AdaptiveConfig D)) : Prop where
  | refuses (code : Failure) (h : ∀ config, handle config = .error code)
  | ignores (h : ∀ config, handle config = .ok none)
  | writes (slot : Slot) (v : slot.Value D) (h : ∀ config, handle config = .ok (some (slot.set v config)))

omit [CDouble D] [CStrtod D] in
theorem into_settles (setting : Handled (Setting D)) :
    Settles fun config => setting.into (Setting.apply config) := by
  match setting with
  | .error code => exact .refuses code fun _ => rfl
  | .ok none => exact .ignores fun _ => rfl
  | .ok (some setting) => exact .writes setting.slot setting.value fun _ => rfl

/-- Every key and value are settled alike for every configuration. -/
theorem applyKey_settles : Settles fun config : AdaptiveConfig D => applyKey config key value := by
  simp only [applyKey_eq]
  exact into_settles (keySetting key value)

end AdaptiveLowpan
