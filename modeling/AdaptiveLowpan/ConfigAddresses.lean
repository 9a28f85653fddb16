import AdaptiveLowpan.ConfigSlots

/-! # Which keys address the same slot

A key selects its slot by fixed text and by the names of states and metrics in it, whose letters
may stand in either case. Nothing else is left open: two keys for one slot are the same but for
that. -/

namespace AdaptiveLowpan
open ByteWords

def SameKey (key key' : Bytes) : Prop :=
  key = key' ∨ ∃ table ∈ slotTables, ∃ names names', key = table.keyPrefix ++ names ∧
    key' = table.keyPrefix ++ names' ∧ names.map toLower = names'.map toLower

/-! ## Names in either case -/

theorem nameEqual_iff (left right : Bytes) :
    nameEqual left right = true ↔ left.map toLower = right.map toLower := by
  induction left generalizing right with
  | nil => cases right <;> simp [nameEqual]
  | cons l left ih =>
    cases right with
    | nil => simp [nameEqual]
    | cons r right =>
      rw [nameEqual]
      split
      · rename_i hne
        simp [hne]
      · rename_i heq
        simp [ih, not_not.mp heq]

section Names
variable {ι : Type} {all : List ι} {nameOf : ι → Bytes} {name name' : Bytes}

theorem fromName_congr (h : name.map toLower = name'.map toLower) :
    fromName all nameOf name = fromName all nameOf name' := by
  have hsame (i : ι) : nameEqual name (nameOf i) = nameEqual name' (nameOf i) := by
    rw [Bool.eq_iff_iff, nameEqual_iff, nameEqual_iff, h]
  simp only [fromName, hsame]

theorem map_toLower_of_fromName {i : ι} (h : fromName all nameOf name = .ok i) :
    name.map toLower = (nameOf i).map toLower := by
  rw [fromName] at h
  cases hfind : all.find? fun i => nameEqual name (nameOf i) with
  | none =>
    rw [hfind] at h
    cases h
  | some j =>
    rw [hfind] at h
    cases h
    have hequal : nameEqual name (nameOf i) = true :=
      List.find?_some (p := fun i => nameEqual name (nameOf i)) hfind
    exact (nameEqual_iff _ _).mp hequal

end Names

theorem toLower_eq_dot (c : UInt8) : toLower c = 0x2e ↔ c = 0x2e := by
  rw [toLower]
  split
  · rename_i hupper
    simp only [UInt8.le_iff_toNat_le, ← UInt8.toNat_inj, UInt8.toNat_add, UInt8.toNat_ofNat]
      at hupper ⊢
    omega
  · rfl

theorem cutAt_map_toLower (text : Bytes) :
    cutAt 0x2e (text.map toLower) =
      (cutAt 0x2e text).map (Prod.map (List.map toLower) (List.map toLower)) := by
  have hdot : (fun c => decide (c ≠ 0x2e)) ∘ toLower = fun c => decide (c ≠ 0x2e) := by
    funext c
    simp [toLower_eq_dot]
  have hmem : (0x2e ∈ text.map toLower) ↔ 0x2e ∈ text := by
    simp [toLower_eq_dot]
  rw [cutAt, cutAt]
  by_cases h : 0x2e ∈ text
  · rw [if_pos h, if_pos (hmem.mpr h), List.takeWhile_map, List.dropWhile_map, hdot, ← List.map_tail]
    rfl
  · rw [if_neg h, if_neg (mt hmem.mp h)]
    rfl

theorem append_of_cutAt {c : UInt8} {text before after : Bytes}
    (h : cutAt c text = some (before, after)) : text = before ++ c :: after := by
  rw [cutAt] at h
  split at h
  · rename_i hmem
    cases h
    obtain ⟨front, back, rfl, hfront⟩ := List.eq_append_cons_of_mem hmem
    have hkept : ∀ d ∈ front, decide (d ≠ c) = true := fun d hd =>
      decide_eq_true fun heq => hfront (heq ▸ hd)
    rw [List.takeWhile_append_of_pos hkept, List.dropWhile_append_of_pos hkept]
    simp
  · cases h

/-! ## Tables -/

/-- The slot that a table selects does not depend on the case of the letters. -/
def SlotTable.IgnoresCase (table : SlotTable) : Prop :=
  ∀ names names' : Bytes, names.map toLower = names'.map toLower →
    table.address names = table.address names'

theorem stateTable_ignoresCase (keyPrefix : Bytes) (slot : AdaptiveState → Slot) :
    (stateTable keyPrefix slot).IgnoresCase :=
  fun _ _ h => congrArg (slot <$> ·) (fromName_congr h)

theorem pairTable_ignoresCase {ι : Type} (all : List ι) (nameOf : ι → Bytes) (keyPrefix : Bytes)
    (slot : AdaptiveState → ι → Slot) :
    (pairTable (fromName all nameOf) keyPrefix slot).IgnoresCase := by
  intro names names' h
  have hlength : names.length = names'.length := by
    simpa using congrArg List.length h
  have hcut := congrArg (cutAt 0x2e) h
  rw [cutAt_map_toLower, cutAt_map_toLower] at hcut
  simp only [pairTable, hlength]
  split
  · rfl
  cases hparts : cutAt 0x2e names with
  | none =>
    rw [hparts] at hcut
    rw [Option.map_eq_none_iff.mp hcut.symm]
  | some parts =>
    rw [hparts] at hcut
    obtain ⟨parts', hparts', hsame⟩ := Option.map_eq_some_iff.mp hcut.symm
    rw [hparts']
    obtain ⟨hname, hname'⟩ := Prod.mk.inj hsame.symm
    simp only [stateFromName, fromName_congr hname, fromName_congr hname']

theorem slotTables_ignoreCase : ∀ table ∈ slotTables, table.IgnoresCase := by
  simp only [slotTables, List.forall_mem_cons, List.not_mem_nil, false_imp_iff, implies_true,
    and_true]
  exact ⟨stateTable_ignoresCase _ _, stateTable_ignoresCase _ _, stateTable_ignoresCase _ _,
    stateTable_ignoresCase _ _, stateTable_ignoresCase _ _,
    pairTable_ignoresCase AdaptiveState.all stateName _ _,
    pairTable_ignoresCase AdaptiveMetric.all metricName _ _,
    pairTable_ignoresCase AdaptiveMetric.all metricName _ _⟩

/-- How the key of a slot is spelt, apart from the case of the letters in its names: the prefix of
its table, if it has one, and the names. -/
def Slot.spelling : Slot → Bytes × Bytes
  | baselineAlpha => (ascii "baseline.alpha", [])
  | baselineEpsilon => (ascii "baseline.epsilon", [])
  | emissionAlpha => (ascii "hmm.emission_alpha", [])
  | transitionForgetting => (ascii "hmm.transition_forgetting", [])
  | transitionSmoothing => (ascii "hmm.transition_smoothing", [])
  | transitionPriorStrength => (ascii "hmm.transition_prior_strength", [])
  | minEmissionVariance => (ascii "hmm.min_variance", [])
  | recoveryHold => (ascii "hmm.recovery_hold", [])
  | windowSize => (ascii "wavelet.window_size", [])
  | waveletLevels => (ascii "wavelet.levels", [])
  | contentFormat => (ascii "coap.content_format", [])
  | uriPath => (ascii "coap.uri_path", [])
  | initialProbability state => (ascii "hmm.initial.", stateName state)
  | thresholdGain state => (ascii "policy.threshold_gain.", stateName state)
  | quantBits state => (ascii "policy.quant_bits.", stateName state)
  | blockSzx state => (ascii "policy.block_szx.", stateName state)
  | samplingFactor state => (ascii "policy.sampling_factor.", stateName state)
  | transitionPrior row column =>
    (ascii "hmm.transition.", stateName row ++ 0x2e :: stateName column)
  | emissionMean state metric => (ascii "hmm.mean.", stateName state ++ 0x2e :: metricName metric)
  | emissionVariance state metric =>
    (ascii "hmm.variance.", stateName state ++ 0x2e :: metricName metric)

/-- A table selects slots that are spelt with its prefix, by their names. -/
def SlotTable.Spells (table : SlotTable) : Prop :=
  ∀ (names : Bytes) (slot : Slot), table.address names = .ok slot →
    slot.spelling.1 = table.keyPrefix ∧ names.map toLower = slot.spelling.2.map toLower

theorem stateTable_spells {keyPrefix : Bytes} {slot : AdaptiveState → Slot}
    (h : ∀ state, (slot state).spelling = (keyPrefix, stateName state)) :
    (stateTable keyPrefix slot).Spells := by
  intro name address haddress
  change slot <$> stateFromName name = .ok address at haddress
  cases hstate : stateFromName name with
  | error code =>
    rw [hstate] at haddress
    cases haddress
  | ok state =>
    rw [hstate] at haddress
    cases haddress
    have hname : name.map toLower = (stateName state).map toLower := map_toLower_of_fromName hstate
    rw [h]
    exact ⟨rfl, hname⟩

theorem pairTable_spells {ι : Type} {all : List ι} {nameOf : ι → Bytes} {keyPrefix : Bytes}
    {slot : AdaptiveState → ι → Slot}
    (h : ∀ row column, (slot row column).spelling =
      (keyPrefix, stateName row ++ 0x2e :: nameOf column)) :
    (pairTable (fromName all nameOf) keyPrefix slot).Spells := by
  intro names address haddress
  simp only [pairTable] at haddress
  split at haddress
  · cases haddress
  cases hcut : cutAt 0x2e names with
  | none =>
    rw [hcut] at haddress
    cases haddress
  | some parts =>
    obtain ⟨name, name'⟩ := parts
    rw [hcut] at haddress
    dsimp only at haddress
    cases hrow : stateFromName name with
    | error code =>
      rw [hrow] at haddress
      cases haddress
    | ok row =>
      cases hcolumn : fromName all nameOf name' with
      | error code =>
        rw [hrow, hcolumn] at haddress
        cases haddress
      | ok column =>
        rw [hrow, hcolumn] at haddress
        cases haddress
        rw [h, append_of_cutAt hcut, List.map_append, List.map_cons, map_toLower_of_fromName hrow,
          map_toLower_of_fromName hcolumn, List.map_append, List.map_cons]
        exact ⟨rfl, rfl⟩

theorem slotTables_spell : ∀ table ∈ slotTables, table.Spells := by
  simp only [slotTables, List.forall_mem_cons, List.not_mem_nil, false_imp_iff, implies_true,
    and_true]
  exact ⟨stateTable_spells fun _ => rfl, stateTable_spells fun _ => rfl,
    stateTable_spells fun _ => rfl, stateTable_spells fun _ => rfl,
    stateTable_spells fun _ => rfl, pairTable_spells fun _ _ => rfl,
    pairTable_spells fun _ _ => rfl, pairTable_spells fun _ _ => rfl⟩

/-! ## Keys -/

theorem spelling_scalarKeys : ∀ entry ∈ scalarKeys, entry.2.spelling = (entry.1, []) := by
  decide +kernel

/-- No key that stands alone looks like one of a table. -/
theorem scalarKeys_not_prefixed : ∀ entry ∈ scalarKeys,
    ∀ keyPrefix ∈ slotTables.map SlotTable.keyPrefix, ¬keyPrefix.isPrefixOf entry.1 := by
  decide +kernel

/-- No key looks like one of two tables. -/
theorem slotTables_prefixes : ∀ keyPrefix ∈ slotTables.map SlotTable.keyPrefix,
    ∀ keyPrefix' ∈ slotTables.map SlotTable.keyPrefix,
      keyPrefix.isPrefixOf keyPrefix' → keyPrefix = keyPrefix' := by
  decide +kernel

theorem mem_of_firstHandled {α : Type} {handled : List (Handled α)} {a : α}
    (h : firstHandled handled = .ok (some a)) : .ok (some a) ∈ handled := by
  induction handled with
  | nil => cases h
  | cons first others ih =>
    match first with
    | .error code => cases h
    | .ok none => exact List.mem_cons_of_mem _ (ih h)
    | .ok (some b) =>
      cases h
      exact List.mem_cons_self

theorem find_eq_ok {table : SlotTable} {key : Bytes} {slot : Slot}
    (h : table.find key = .ok (some slot)) :
    ∃ names, key = table.keyPrefix ++ names ∧ table.address names = .ok slot := by
  rw [SlotTable.find] at h
  split at h
  · cases h
  rename_i hstart
  obtain ⟨names, rfl⟩ := List.isPrefixOf_iff_prefix.mp (not_not.mp hstart)
  rw [List.drop_left] at h
  cases haddress : table.address names with
  | error code =>
    rw [haddress] at h
    cases h
  | ok address =>
    rw [haddress] at h
    cases h
    exact ⟨names, rfl, haddress⟩

/-- A key with an address is spelt as its slot, but for the case of the letters in its names, which
only a key of a table has. -/
theorem spelling_of_keyAddress {key : Bytes} {slot : Slot} (h : keyAddress key = .ok (some slot)) :
    ∃ names, key = slot.spelling.1 ++ names ∧ names.map toLower = slot.spelling.2.map toLower ∧
      (names = [] ∨ ∃ table ∈ slotTables, slot.spelling.1 = table.keyPrefix) := by
  rw [keyAddress] at h
  cases hlookup : scalarKeys.lookup key with
  | some address =>
    rw [hlookup] at h
    cases h
    obtain ⟨before, after, hsplit, -⟩ := List.lookup_eq_some_iff.mp hlookup
    have hscalar : (key, slot) ∈ scalarKeys := by
      rw [hsplit]
      exact List.mem_append_right _ List.mem_cons_self
    rw [spelling_scalarKeys _ hscalar]
    exact ⟨[], (List.append_nil key).symm, rfl, .inl rfl⟩
  | none =>
    rw [hlookup] at h
    obtain ⟨table, htable, hfind⟩ := List.mem_map.mp (mem_of_firstHandled h)
    obtain ⟨names, rfl, haddress⟩ := find_eq_ok hfind
    obtain ⟨hstart, hnames⟩ := slotTables_spell table htable names slot haddress
    exact ⟨names, congrArg (· ++ names) hstart.symm, hnames, .inr ⟨table, htable, hstart⟩⟩

/-- Two keys for one slot are the same but for the case of the letters in their names. -/
theorem sameKey_of_keyAddress {key key' : Bytes} {slot : Slot}
    (h : keyAddress key = .ok (some slot)) (h' : keyAddress key' = .ok (some slot)) :
    SameKey key key' := by
  obtain ⟨names, rfl, hnames, htable⟩ := spelling_of_keyAddress h
  obtain ⟨names', rfl, hnames', -⟩ := spelling_of_keyAddress h'
  have hsame := hnames.trans hnames'.symm
  rcases htable with rfl | ⟨table, htable, hstart⟩
  · rw [List.map_eq_nil_iff.mp hsame.symm]
    exact .inl rfl
  · rw [hstart]
    exact .inr ⟨table, htable, names, names', rfl, rfl, hsame⟩

theorem lookup_of_prefixed {table : SlotTable} (htable : table ∈ slotTables) (names : Bytes) :
    scalarKeys.lookup (table.keyPrefix ++ names) = none := by
  rw [List.lookup_eq_none_iff]
  intro entry hentry
  rw [bne_iff_ne]
  intro heq
  refine scalarKeys_not_prefixed entry hentry _ (List.mem_map_of_mem htable) ?_
  rw [← heq]
  exact List.isPrefixOf_iff_prefix.mpr (List.prefix_append _ _)

theorem find_of_prefixed {table : SlotTable} (names : Bytes) :
    table.find (table.keyPrefix ++ names) = .of (table.address names) := by
  have hstart : table.keyPrefix.isPrefixOf (table.keyPrefix ++ names) :=
    List.isPrefixOf_iff_prefix.mpr (List.prefix_append _ _)
  rw [SlotTable.find, if_neg (not_not.mpr hstart), List.drop_left]

/-- A table with another prefix does not know the key. -/
theorem find_of_other {table other : SlotTable} (htable : table ∈ slotTables)
    (hother : other ∈ slotTables) (hne : other.keyPrefix ≠ table.keyPrefix) (names : Bytes) :
    other.find (table.keyPrefix ++ names) = .ok none := by
  rw [SlotTable.find, if_pos]
  intro hstart
  have hmem := List.mem_map_of_mem (f := SlotTable.keyPrefix) htable
  have hmem' := List.mem_map_of_mem (f := SlotTable.keyPrefix) hother
  rcases List.prefix_or_prefix_of_prefix (List.isPrefixOf_iff_prefix.mp hstart)
    (List.prefix_append _ _) with h | h
  · exact hne (slotTables_prefixes _ hmem' _ hmem (List.isPrefixOf_iff_prefix.mpr h))
  · exact hne (slotTables_prefixes _ hmem _ hmem' (List.isPrefixOf_iff_prefix.mpr h)).symm

theorem keyAddress_congr {key key' : Bytes} (h : SameKey key key') :
    keyAddress key = keyAddress key' := by
  rcases h with rfl | ⟨table, htable, names, names', rfl, rfl, hsame⟩
  · rfl
  rw [keyAddress, keyAddress, lookup_of_prefixed htable, lookup_of_prefixed htable]
  refine congrArg firstHandled (List.map_congr_left fun other hother => ?_)
  by_cases hstart : other.keyPrefix = table.keyPrefix
  · rw [← hstart, find_of_prefixed, find_of_prefixed,
      slotTables_ignoreCase other hother names names' hsame]
  · rw [find_of_other htable hother hstart, find_of_other htable hother hstart]

/-- Keys with an address have the same one exactly where they are the same. -/
theorem keyAddress_eq_iff {key key' : Bytes} {slot slot' : Slot}
    (h : keyAddress key = .ok (some slot)) (h' : keyAddress key' = .ok (some slot')) :
    slot = slot' ↔ SameKey key key' := by
  constructor
  · rintro rfl
    exact sameKey_of_keyAddress h h'
  · intro hsame
    rw [keyAddress_congr hsame, h'] at h
    cases h
    rfl

end AdaptiveLowpan
