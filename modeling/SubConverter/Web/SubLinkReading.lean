import SubConverter.Web.SubLinkWire

set_option autoImplicit false

namespace SubConverter.Web

variable {ν : Type} {browser : Browser ν}

section Keys

variable {key : Text} {entry : OptionDef} {family : PlacementKey}

theorem optionDef_some (found : optionDef key = some entry) : entry ∈ optionDefs ∧ entry.key = key :=
  ⟨List.mem_of_find?_eq_some found, by simpa using List.find?_some found⟩

theorem def_names : ∀ entry ∈ optionDefs, entry.key ∉ formParams ∧
    ∀ family ∈ placementKeys, entry.key ≠ prependParam family.key ∧ entry.key ≠ rulePlacementKey family.key := by decide

theorem mem_placementKeys (family : PlacementKey) : family ∈ placementKeys := by cases family <;> decide

theorem optionDef_names (found : optionDef key = some entry) :
    key ∉ formParams ∧ ∀ family : PlacementKey, key ≠ prependParam family.key ∧ key ≠ rulePlacementKey family.key := by
  obtain ⟨among, rfl⟩ := optionDef_some found
  exact ⟨(def_names entry among).1, fun family => (def_names entry among).2 family (mem_placementKeys family)⟩

theorem find_prepend {family : PlacementKey} :
    (placementKeys.find? fun family => key = prependParam family.key) = some family ↔ key = prependParam family.key := by
  constructor
  · intro found
    simpa using List.find?_some found
  · rintro rfl
    cases family <;> decide

theorem find_append_key {family : PlacementKey} :
    (placementKeys.find? fun family => key = family.key) = some family ↔ key = family.key := by
  constructor
  · intro found
    simpa using List.find?_some found
  · rintro rfl
    cases family <;> decide

end Keys

section Reading

variable {params : Params} {s : Reading ν} {param : Text × Text}

def lastValue (name : Text) (params : Params) : Option Text := Keyed.find name params.reverse

theorem lastValue_concat (name : Text) (params : Params) (param : Text × Text) :
    lastValue name (params ++ [param]) = if param.1 = name then some param.2 else lastValue name params := by
  rw [lastValue, List.reverse_concat, Keyed.find_cons, lastValue]

theorem lastValue_concat_ne {name : Text} (params : Params) (other : param.1 ≠ name) :
    lastValue name (params ++ [param]) = lastValue name params := by
  rw [lastValue_concat, if_neg other]

def Unknown (key : Text) : Prop := key ∉ formParams ∧ (∀ family : PlacementKey, key ≠ prependParam family.key) ∧ optionDef key = none

structure Reads (browser : Browser ν) (params : Params) (s : Reading ν) : Prop where
  options : ∀ key, s.options.get key = (optionDef key).bind fun entry => (lastValue key params).map (readOption browser entry)
  prepends : ∀ family, Keyed.find family s.prependValues = lastValue (prependParam family.key) params
  appends : ∀ family, Keyed.find family s.appendValues = lastValue family.key params
  unknown : ∀ key value, Keyed.find key s.unknown = some value ↔ Unknown key ∧ lastValue key params = some value

theorem reads_nothing : Reads browser [] {} := by
  constructor
  · intro key
    cases optionDef key <;> rfl
  · exact fun family => rfl
  · exact fun family => rfl
  · intro key value
    simp [lastValue, Keyed.find]

theorem prependParam_injective {family other : PlacementKey} (same : prependParam family.key = prependParam other.key) : family = other := by
  revert same
  cases family <;> cases other <;> decide

theorem key_injective {family other : PlacementKey} (same : family.key = other.key) : family = other := by
  revert same
  cases family <;> cases other <;> decide

theorem key_ne_prependParam (family other : PlacementKey) : family.key ≠ prependParam other.key := by
  cases family <;> cases other <;> decide

theorem optionDef_key (family : PlacementKey) : optionDef family.key = some ⟨family.key, .string, false⟩ := by
  cases family <;> decide

theorem prependParam_not_form (family : PlacementKey) : prependParam family.key ∉ formParams := by cases family <;> decide

theorem Reads.form (reads : Reads browser params s) (form : param.1 ∈ formParams) : Reads browser (params ++ [param]) s := by
  obtain ⟨options, prepends, appends, unknown⟩ := reads
  have same : ∀ name, name ∉ formParams → lastValue name (params ++ [param]) = lastValue name params := fun name outside =>
    lastValue_concat_ne params fun same => outside (same ▸ form)
  constructor
  · intro key
    rw [options]
    cases found : optionDef key with
    | none => rfl
    | some entry => rw [same key (optionDef_names found).1]
  · exact fun family => by rw [prepends, same _ (prependParam_not_form family)]
  · exact fun family => by rw [appends, same _ (optionDef_names (optionDef_key family)).1]
  · exact fun key value => (unknown key value).trans (and_congr_right fun other => by rw [same key other.1])

theorem Reads.prepend {family : PlacementKey} (reads : Reads browser params s) (named : param.1 = prependParam family.key) :
    Reads browser (params ++ [param]) { s with prependValues := Keyed.put family param.2 s.prependValues } := by
  obtain ⟨options, prepends, appends, unknown⟩ := reads
  have same : ∀ name, name ≠ prependParam family.key → lastValue name (params ++ [param]) = lastValue name params := fun name other =>
    lastValue_concat_ne params fun same => other (same ▸ named)
  constructor
  · intro key
    rw [options]
    cases found : optionDef key with
    | none => rfl
    | some entry => rw [same key ((optionDef_names found).2 family).1]
  · intro other
    by_cases here : other = family
    · rw [here, Keyed.find_put, lastValue_concat, if_pos named]
    · rw [Keyed.find_put_of_ne here, prepends, same _ fun equal => here (prependParam_injective equal)]
  · exact fun other => by rw [appends, same _ (key_ne_prependParam other family)]
  · exact fun key value => (unknown key value).trans (and_congr_right fun other => by rw [same key (other.2.1 family)])

theorem Reads.option {entry : OptionDef} {appendValues : List (PlacementKey × Text)} (reads : Reads browser params s)
    (found : optionDef param.1 = some entry)
    (appended : ∀ family, Keyed.find family appendValues = lastValue family.key (params ++ [param])) :
    Reads browser (params ++ [param])
      { s with appendValues := appendValues, options := s.options.set param.1 (readOption browser entry param.2) } := by
  obtain ⟨options, prepends, appends, unknown⟩ := reads
  constructor
  · intro key
    rw [Options.get_set, lastValue_concat]
    by_cases same : key = param.1
    · rw [if_pos same, if_pos same.symm, same, found]
      rfl
    · rw [if_neg same, if_neg (Ne.symm same), options]
  · intro family
    rw [prepends, lastValue_concat, if_neg ((optionDef_names found).2 family).1]
  · exact appended
  · intro key value
    rw [unknown, lastValue_concat]
    refine and_congr_right fun other => ?_
    rw [if_neg]
    intro same
    rw [same, other.2.2] at found
    cases found

theorem Reads.other (reads : Reads browser params s) (unknown : Unknown param.1) :
    Reads browser (params ++ [param]) { s with unknown := Keyed.put param.1 param.2 s.unknown } := by
  obtain ⟨options, prepends, appends, known⟩ := reads
  constructor
  · intro key
    rw [options, lastValue_concat]
    cases found : optionDef key with
    | none => rfl
    | some entry =>
      rw [if_neg]
      intro same
      rw [← same, unknown.2.2] at found
      cases found
  · intro family
    rw [prepends, lastValue_concat, if_neg (unknown.2.1 family)]
  · intro family
    rw [appends, lastValue_concat, if_neg]
    intro same
    have found := optionDef_key family
    rw [← same, unknown.2.2] at found
    cases found
  · intro key value
    rw [lastValue_concat]
    by_cases same : key = param.1
    · rw [same, Keyed.find_put, if_pos rfl]
      exact (and_iff_right unknown).symm
    · rw [Keyed.find_put_of_ne same, if_neg (Ne.symm same), known]

theorem appended_of_ne {params : Params} (appends : ∀ family, Keyed.find family s.appendValues = lastValue family.key params)
    (other : ∀ family : PlacementKey, param.1 ≠ family.key) (family : PlacementKey) :
    Keyed.find family s.appendValues = lastValue family.key (params ++ [param]) := by
  rw [appends, lastValue_concat, if_neg (other family)]

theorem appended_put {params : Params} {family : PlacementKey}
    (appends : ∀ family, Keyed.find family s.appendValues = lastValue family.key params) (named : param.1 = family.key)
    (other : PlacementKey) : Keyed.find other (Keyed.put family param.2 s.appendValues) = lastValue other.key (params ++ [param]) := by
  rw [lastValue_concat, named]
  by_cases same : other = family
  · rw [same, Keyed.find_put, if_pos rfl]
  · rw [Keyed.find_put_of_ne same, appends, if_neg fun equal => same (key_injective equal).symm]

theorem Reads.step (reads : Reads browser params s) : Reads browser (params ++ [param]) (readParam browser s param) := by
  unfold readParam
  split
  next form => exact reads.form form
  next outside =>
    cases first : placementKeys.find? fun family => param.1 = prependParam family.key with
    | some family => exact reads.prepend (find_prepend.mp first)
    | none =>
      have noPrepend : ∀ family : PlacementKey, param.1 ≠ prependParam family.key := by
        intro family same
        rw [find_prepend.mpr same] at first
        cases first
      cases last : placementKeys.find? fun family => param.1 = family.key with
      | some family =>
        have named := find_append_key.mp last
        have found : optionDef param.1 = some ⟨family.key, .string, false⟩ := by rw [named, optionDef_key]
        simp only [found]
        exact reads.option found (appended_put reads.appends named)
      | none =>
        have noAppend : ∀ family : PlacementKey, param.1 ≠ family.key := by
          intro family same
          rw [find_append_key.mpr same] at last
          cases last
        cases found : optionDef param.1 with
        | some entry => exact reads.option found (appended_of_ne reads.appends noAppend)
        | none => exact reads.other ⟨outside, noPrepend, found⟩

theorem reads_all (params : Params) : Reads browser params (params.foldl (readParam browser) {}) := by
  induction params using List.reverseRecOn with
  | nil => exact reads_nothing
  | append_singleton front param ih =>
    rw [List.foldl_append]
    exact ih.step

end Reading

section Settling

variable {params : Params} {s : Reading ν} {family : PlacementKey} {key prependValue : Text}

theorem settle_values (s : Reading ν) (family : PlacementKey) :
    (settle s family).prependValues = s.prependValues ∧ (settle s family).appendValues = s.appendValues := by
  unfold settle
  split <;> exact ⟨rfl, rfl⟩

theorem settle_get_other (outside : key ≠ family.key ∧ key ≠ rulePlacementKey family.key) :
    (settle s family).options.get key = s.options.get key := by
  unfold settle
  split
  next => rfl
  next => rw [Options.get_set, if_neg outside.2, Options.get_set, if_neg outside.1]

theorem key_ne_mode (family other : PlacementKey) : family.key ≠ rulePlacementKey other.key := by
  cases family <;> cases other <;> decide

theorem settle_get_key (s : Reading ν) (family : PlacementKey) : (settle s family).options.get family.key =
    (((Keyed.find family s.prependValues).map (ruleFamilyValue family)).map OptionValue.text).or (s.options.get family.key) := by
  unfold settle
  split
  next absent => rw [absent]; rfl
  next prependValue found =>
    rw [Options.get_set, if_neg (key_ne_mode family family), Options.get_set, if_pos rfl, found]
    rfl

theorem settle_get_mode (s : Reading ν) (family : PlacementKey) : (settle s family).options.get (rulePlacementKey family.key) =
    ((Keyed.find family s.prependValues).map fun _ => .text (chars "prepend")).or (s.options.get (rulePlacementKey family.key)) := by
  unfold settle
  split
  next absent => rw [absent]; rfl
  next prependValue found =>
    rw [Options.get_set, if_pos rfl, found]
    rfl

theorem settle_unknown (s : Reading ν) (family : PlacementKey) (key : Text) : Keyed.find key (settle s family).unknown =
    if key = family.key ∧ (Keyed.find family s.prependValues).isSome ∧ (Keyed.find family s.appendValues).isSome then
      Keyed.find family s.appendValues
    else Keyed.find key s.unknown := by
  unfold settle
  split
  next absent => rw [absent, if_neg (by simp)]
  next prependValue found =>
    dsimp only
    cases appended : Keyed.find family s.appendValues with
    | none => rw [if_neg (by simp)]
    | some appendValue =>
      by_cases same : key = family.key
      · rw [same, Keyed.find_put, if_pos ⟨rfl, by simp [found], rfl⟩]
      · rw [Keyed.find_put_of_ne same, if_neg fun both => same both.1]

theorem apart (family other : PlacementKey) (different : family ≠ other) :
    (family.key ≠ other.key ∧ family.key ≠ rulePlacementKey other.key) ∧
      rulePlacementKey family.key ≠ other.key ∧ rulePlacementKey family.key ≠ rulePlacementKey other.key := by
  revert different
  cases family <;> cases other <;> decide

theorem optionDef_mode (family : PlacementKey) : optionDef (rulePlacementKey family.key) = none := by cases family <;> decide

theorem read_key (params : Params) (family : PlacementKey) : (readParams browser params).options.get family.key =
    (((lastValue (prependParam family.key) params).map (ruleFamilyValue family)).map OptionValue.text).or
      ((lastValue family.key params).map (readOption browser ⟨family.key, .string, false⟩)) := by
  obtain ⟨options, prepends, -, -⟩ := @reads_all ν browser params
  have settled : ∀ s : Reading ν, (placementKeys.foldl settle s).options.get family.key = (settle s family).options.get family.key := by
    intro s
    cases family with
    | extRuleset => exact settle_get_other (apart .extRuleset .inlineRules (by decide)).1
    | inlineRules =>
      change (settle (settle s .extRuleset) .inlineRules).options.get _ = _
      rw [settle_get_key, settle_get_key, (settle_values s .extRuleset).1,
        settle_get_other (apart .inlineRules .extRuleset (by decide)).1]
  rw [readParams, settled, settle_get_key, prepends, options, optionDef_key, Option.bind_some]

theorem read_mode (params : Params) (family : PlacementKey) : (readParams browser params).options.get (rulePlacementKey family.key) =
    (lastValue (prependParam family.key) params).map fun _ => .text (chars "prepend") := by
  obtain ⟨options, prepends, -, -⟩ := @reads_all ν browser params
  have settled : ∀ s : Reading ν, (placementKeys.foldl settle s).options.get (rulePlacementKey family.key) =
      (settle s family).options.get (rulePlacementKey family.key) := by
    intro s
    cases family with
    | extRuleset => exact settle_get_other (apart .extRuleset .inlineRules (by decide)).2
    | inlineRules =>
      change (settle (settle s .extRuleset) .inlineRules).options.get _ = _
      rw [settle_get_mode, settle_get_mode, (settle_values s .extRuleset).1,
        settle_get_other (apart .inlineRules .extRuleset (by decide)).2]
  rw [readParams, settled, settle_get_mode, prepends, options, optionDef_mode, Option.bind_none, Option.or_none]

theorem read_other (params : Params) (outside : ∀ family : PlacementKey, key ≠ family.key ∧ key ≠ rulePlacementKey family.key) :
    (readParams browser params).options.get key =
      (optionDef key).bind fun entry => (lastValue key params).map (readOption browser entry) := by
  have settled : ∀ s : Reading ν, (placementKeys.foldl settle s).options.get key = s.options.get key := fun s =>
    (settle_get_other (outside .inlineRules)).trans (settle_get_other (outside .extRuleset))
  rw [readParams, settled, (@reads_all ν browser params).options]

theorem not_unknown_key (family : PlacementKey) : ¬ Unknown family.key := by
  rintro ⟨-, -, none⟩
  rw [optionDef_key] at none
  cases none

theorem read_unknown_key (params : Params) (family : PlacementKey) : Keyed.find family.key (readParams browser params).unknown =
    if (lastValue (prependParam family.key) params).isSome then lastValue family.key params else none := by
  obtain ⟨-, prepends, appends, unknown⟩ := @reads_all ν browser params
  have nothing : Keyed.find family.key (params.foldl (readParam browser) {}).unknown = none := by
    rw [Option.eq_none_iff_forall_ne_some]
    exact fun value found => not_unknown_key family ((unknown _ _).mp found).1
  have settled : ∀ s : Reading ν, Keyed.find family.key (placementKeys.foldl settle s).unknown =
      Keyed.find family.key (settle s family).unknown := by
    intro s
    change Keyed.find _ (settle (settle s .extRuleset) .inlineRules).unknown = _
    cases family with
    | extRuleset => rw [settle_unknown, if_neg fun both => absurd (key_injective both.1) (by decide)]
    | inlineRules =>
      rw [settle_unknown, settle_unknown s .extRuleset, settle_unknown s .inlineRules, (settle_values s .extRuleset).1,
        (settle_values s .extRuleset).2, @if_neg (_ = PlacementKey.extRuleset.key ∧ _) _ fun both => absurd (key_injective both.1) (by decide)]
  rw [readParams, settled, settle_unknown, prepends, appends, nothing]
  cases lastValue (prependParam family.key) params <;> cases lastValue family.key params <;> simp

theorem read_unknown_other (params : Params) (key value : Text) (outside : ∀ family : PlacementKey, key ≠ family.key) :
    Keyed.find key (readParams browser params).unknown = some value ↔ Unknown key ∧ lastValue key params = some value := by
  have settled : ∀ s : Reading ν, Keyed.find key (placementKeys.foldl settle s).unknown = Keyed.find key s.unknown := by
    intro s
    change Keyed.find _ (settle (settle s .extRuleset) .inlineRules).unknown = _
    rw [settle_unknown, if_neg fun both => outside .inlineRules both.1, settle_unknown, if_neg fun both => outside .extRuleset both.1]
  rw [readParams, settled, (@reads_all ν browser params).unknown]

end Settling

end SubConverter.Web
