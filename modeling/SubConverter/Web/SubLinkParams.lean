import SubConverter.Web.SubLinkReading

set_option autoImplicit false

namespace SubConverter.Web

variable {ν : Type} {browser : Browser ν} {state : FormState ν}

section Written

variable {key name : Text} {entry : Text × OptionValue ν} {param : Text × Text}

def optionParams (browser : Browser ν) (state : FormState ν) : Params := state.options.entries.filterMap (optionParam browser state)

theorem lastValue_append (name : Text) (front back : Params) :
    lastValue name (front ++ back) = (lastValue name back).or (lastValue name front) := by
  rw [lastValue, List.reverse_append, Keyed.find_append, lastValue, lastValue]

theorem lastValue_eq_none {params : Params} (others : ∀ param ∈ params, param.1 ≠ name) : lastValue name params = none := by
  rw [lastValue, Keyed.find_eq_none_iff, List.map_reverse, List.mem_reverse]
  intro there
  obtain ⟨param, among, same⟩ := List.mem_map.mp there
  exact others param among same

theorem params_distinct (browser : Browser ν) (state : FormState ν) : ((params browser state).map Prod.fst).Nodup :=
  @Keyed.foldl_put_keeps Text Text _ [] (fun params => (params.map Prod.fst).Nodup) _ (by simp)
    fun _ _ _ distinct => Keyed.nodup_put distinct

theorem find_params (browser : Browser ν) (state : FormState ν) (name : Text) :
    Keyed.find name (params browser state) = lastValue name (written browser state) := by
  rw [params, Keyed.find_foldl_put, lastValue]
  exact Option.or_none

theorem lastValue_params (browser : Browser ν) (state : FormState ν) (name : Text) :
    lastValue name (params browser state) = lastValue name (written browser state) := by
  rw [lastValue, Keyed.find_reverse (params_distinct browser state), find_params]

theorem lastValue_written (browser : Browser ν) (state : FormState ν) (name : Text) : lastValue name (written browser state) =
    (lastValue name (optionParams browser state)).or ((lastValue name (rulesetParam state)).or ((lastValue name (dnsParam state)).or
      ((lastValue name (nameParam state)).or (lastValue name
        [(chars "target", state.target), (chars "url", joinSourceUrlsForWire state.sourceUrl)])))) := by
  have whole : written browser state = [(chars "target", state.target), (chars "url", joinSourceUrlsForWire state.sourceUrl)] ++
      nameParam state ++ dnsParam state ++ rulesetParam state ++ optionParams browser state := by
    simp [written, optionParams]
  rw [whole, lastValue_append, lastValue_append, lastValue_append, lastValue_append]

theorem nameParam_names : ∀ param ∈ nameParam state, param.1 = chars "filename" := by
  unfold nameParam
  split <;> simp

theorem dnsParam_names : ∀ param ∈ dnsParam state, param.1 = chars "dns_template" := by
  unfold dnsParam
  dsimp only
  split
  next => split <;> simp
  next => simp

theorem rulesetParam_names :
    ∀ param ∈ rulesetParam state, param.1 = ruleParamFor PlacementKey.extRuleset.key (placementOf state.options PlacementKey.extRuleset.key) := by
  unfold rulesetParam
  split
  next => split <;> simp [PlacementKey.key]
  next => simp

theorem optionParam_some (sent : optionParam browser state entry = some param) :
    entry.1 ≠ PlacementKey.extRuleset.key ∧ (∀ family : PlacementKey, entry.1 ≠ rulePlacementKey family.key) ∧
      param.1 = paramName state entry.1 := by
  unfold optionParam at sent
  split_ifs at sent with provider ruleset mode
  obtain ⟨text, -, rfl⟩ := Option.map_eq_some_iff.mp sent
  rw [Bool.not_eq_true, List.any_eq_false] at mode
  exact ⟨ruleset, fun family same => mode family (mem_placementKeys family) (by simpa using same), rfl⟩

def KnownKeys (options : Options ν) : Prop :=
  ∀ entry ∈ options.entries, (∃ family : PlacementKey, entry.1 = rulePlacementKey family.key) ∨ (optionDef entry.1).isSome

def Plain (key : Text) : Prop := (optionDef key).isSome ∧ key ≠ PlacementKey.extRuleset.key

theorem plain_of_sent (known : KnownKeys state.options) (there : entry ∈ state.options.entries)
    (sent : optionParam browser state entry = some param) : Plain entry.1 := by
  obtain ⟨ruleset, mode, -⟩ := optionParam_some sent
  rcases known entry there with ⟨family, same⟩ | known
  · exact absurd same (mode family)
  · exact ⟨known, ruleset⟩

theorem paramName_inlineRules (state : FormState ν) : paramName state PlacementKey.inlineRules.key =
    ruleParamFor PlacementKey.inlineRules.key (placementOf state.options PlacementKey.inlineRules.key) := by
  rw [paramName, if_pos (by decide)]

theorem paramName_other (state : FormState ν) (plain : Plain key) (other : key ≠ PlacementKey.inlineRules.key) :
    paramName state key = key := by
  have outside : isPlacementKey key = false := by
    rw [isPlacementKey, List.any_eq_false]
    intro family _
    cases family with
    | extRuleset => simpa using plain.2
    | inlineRules => simpa using other
  rw [paramName, outside]
  rfl

theorem ruleParamFor_cases (key : Text) (placement : RulePlacement) :
    ruleParamFor key placement = key ∨ ruleParamFor key placement = prependParam key := by
  cases placement with
  | prepend => exact .inr rfl
  | append => exact .inl rfl

theorem plain_names (plain : Plain key) : key ∉ formParams ∧ ∀ family : PlacementKey, key ≠ prependParam family.key := by
  obtain ⟨entry, found⟩ := Option.isSome_iff_exists.mp plain.1
  exact ⟨(optionDef_names found).1, fun family => ((optionDef_names found).2 family).1⟩

theorem paramName_injective {other : Text} (plain : Plain key) (plainOther : Plain other)
    (same : paramName state key = paramName state other) : key = other := by
  by_cases here : key = PlacementKey.inlineRules.key
  · by_cases there : other = PlacementKey.inlineRules.key
    · rw [here, there]
    · rw [here, paramName_inlineRules, paramName_other state plainOther there] at same
      rcases ruleParamFor_cases PlacementKey.inlineRules.key (placementOf state.options PlacementKey.inlineRules.key) with one | one
      · exact absurd (same.symm.trans one) there
      · exact absurd (same.symm.trans one) ((plain_names plainOther).2 _)
  · by_cases there : other = PlacementKey.inlineRules.key
    · rw [there, paramName_inlineRules, paramName_other state plain here] at same
      rcases ruleParamFor_cases PlacementKey.inlineRules.key (placementOf state.options PlacementKey.inlineRules.key) with one | one
      · exact absurd (same.trans one) here
      · exact absurd (same.trans one) ((plain_names plain).2 _)
    · rwa [paramName_other state plain here, paramName_other state plainOther there] at same

def sentText (browser : Browser ν) (state : FormState ν) (key : Text) : Option Text :=
  (state.options.get key).bind fun value => (optionParam browser state (key, value)).map Prod.snd

theorem lastValue_optionParams (known : KnownKeys state.options) (plain : Plain key) :
    lastValue (paramName state key) (optionParams browser state) = sentText browser state key := by
  have backwards : (state.options.entries.reverse.map Prod.fst).Nodup := by
    rw [List.map_reverse, List.nodup_reverse]
    exact state.options.distinct
  have named : ∀ entry ∈ state.options.entries.reverse, ∀ param, optionParam browser state entry = some param →
      (param.1 = paramName state key ↔ entry.1 = key) := by
    intro entry there param sent
    have among := List.mem_reverse.mp there
    rw [(optionParam_some sent).2.2]
    exact ⟨paramName_injective (plain_of_sent known among sent) plain, fun same => by rw [same]⟩
  rw [lastValue, optionParams, ← List.filterMap_reverse, Keyed.find_filterMap backwards named,
    Keyed.find_reverse state.options.distinct]
  rfl

theorem lastValue_optionParams_none (known : KnownKeys state.options) (other : ∀ key, Plain key → paramName state key ≠ name) :
    lastValue name (optionParams browser state) = none := by
  apply lastValue_eq_none
  intro param there
  obtain ⟨entry, among, sent⟩ := List.mem_filterMap.mp there
  rw [(optionParam_some sent).2.2]
  exact other entry.1 (plain_of_sent known among sent)

end Written

section Lookups

variable {key name : Text}

theorem paramName_names (plain : Plain key) : paramName state key ∉ formParams ∧
    paramName state key ≠ PlacementKey.extRuleset.key ∧ paramName state key ≠ prependParam PlacementKey.extRuleset.key := by
  by_cases here : key = PlacementKey.inlineRules.key
  · rw [here, paramName_inlineRules]
    cases placementOf state.options PlacementKey.inlineRules.key <;> decide
  · rw [paramName_other state plain here]
    exact ⟨(plain_names plain).1, plain.2, (plain_names plain).2 _⟩

theorem rulesetParam_outside {param : Text × Text} (there : param ∈ rulesetParam state) : param.1 ∉ formParams ∧
    (param.1 = PlacementKey.extRuleset.key ∨ param.1 = prependParam PlacementKey.extRuleset.key) := by
  rw [rulesetParam_names param there]
  cases placementOf state.options PlacementKey.extRuleset.key <;> decide

theorem lastValue_form (known : KnownKeys state.options) (form : name ∈ formParams) : lastValue name (params browser state) =
    (lastValue name (dnsParam state)).or ((lastValue name (nameParam state)).or (lastValue name
      [(chars "target", state.target), (chars "url", joinSourceUrlsForWire state.sourceUrl)])) := by
  have options : lastValue name (optionParams browser state) = none :=
    lastValue_optionParams_none known fun key plain same => (paramName_names plain).1 (same ▸ form)
  have rulesets : lastValue name (rulesetParam state) = none :=
    lastValue_eq_none fun param there same => (rulesetParam_outside there).1 (same ▸ form)
  rw [lastValue_params, lastValue_written, options, rulesets, Option.none_or, Option.none_or]

theorem lastValue_outside (outside : name ∉ formParams) : lastValue name (params browser state) =
    (lastValue name (optionParams browser state)).or (lastValue name (rulesetParam state)) := by
  have dns : lastValue name (dnsParam state) = none :=
    lastValue_eq_none fun param there same => outside (same ▸ dnsParam_names param there ▸ by decide)
  have filename : lastValue name (nameParam state) = none :=
    lastValue_eq_none fun param there same => outside (same ▸ nameParam_names param there ▸ by decide)
  have fields : lastValue name [(chars "target", state.target), (chars "url", joinSourceUrlsForWire state.sourceUrl)] = none := by
    apply lastValue_eq_none
    rintro param there rfl
    rcases List.mem_pair.mp there with rfl | rfl
    · exact outside (show chars "target" ∈ formParams by decide)
    · exact outside (show chars "url" ∈ formParams by decide)
  rw [lastValue_params, lastValue_written, dns, filename, fields, Option.or_none, Option.or_none, Option.or_none]

theorem lastValue_target (known : KnownKeys state.options) : lastValue (chars "target") (params browser state) = some state.target := by
  rw [lastValue_form known (by decide), lastValue_eq_none fun param there => dnsParam_names param there ▸ by decide,
    lastValue_eq_none fun param there => nameParam_names param there ▸ by decide]
  rfl

theorem lastValue_url (known : KnownKeys state.options) :
    lastValue (chars "url") (params browser state) = some (joinSourceUrlsForWire state.sourceUrl) := by
  rw [lastValue_form known (by decide), lastValue_eq_none fun param there => dnsParam_names param there ▸ by decide,
    lastValue_eq_none fun param there => nameParam_names param there ▸ by decide]
  rfl

theorem lastValue_filename (known : KnownKeys state.options) : lastValue (chars "filename") (params browser state) =
    if trim state.subscriptionName = [] then none else some (trim state.subscriptionName) := by
  rw [lastValue_form known (by decide), lastValue_eq_none fun param there => dnsParam_names param there ▸ by decide, nameParam]
  split <;> rfl

theorem lastValue_dns (known : KnownKeys state.options) :
    lastValue (chars "dns_template") (params browser state) = lastValue (chars "dns_template") (dnsParam state) := by
  have filename : lastValue (chars "dns_template") (nameParam state) = none :=
    lastValue_eq_none fun param there => nameParam_names param there ▸ by decide
  rw [lastValue_form known (by decide), filename]
  exact Option.or_none

theorem lastValue_option (known : KnownKeys state.options) (plain : Plain key) :
    lastValue (paramName state key) (params browser state) = sentText browser state key := by
  have rulesets : lastValue (paramName state key) (rulesetParam state) = none := by
    refine lastValue_eq_none fun param there same => ?_
    rcases (rulesetParam_outside there).2 with one | one
    · exact (paramName_names plain).2.1 (same.symm.trans one)
    · exact (paramName_names plain).2.2 (same.symm.trans one)
  rw [lastValue_outside (paramName_names plain).1, rulesets, Option.or_none, lastValue_optionParams known plain]

theorem lastValue_none (known : KnownKeys state.options) (outside : name ∉ formParams)
    (rulesets : name ≠ PlacementKey.extRuleset.key ∧ name ≠ prependParam PlacementKey.extRuleset.key)
    (options : ∀ key, Plain key → paramName state key ≠ name) : lastValue name (params browser state) = none := by
  have rulesets : lastValue name (rulesetParam state) = none := by
    refine lastValue_eq_none fun param there same => ?_
    rcases (rulesetParam_outside there).2 with one | one
    · exact rulesets.1 (same.symm.trans one)
    · exact rulesets.2 (same.symm.trans one)
  rw [lastValue_outside outside, rulesets, Option.or_none, lastValue_optionParams_none known options]

theorem plain_inlineRules : Plain PlacementKey.inlineRules.key := ⟨by decide, by decide⟩

def rulesetText (state : FormState ν) : Option Text :=
  match state.options.get (chars "ext_ruleset") with
  | some (.text extRaw) => if rulesetLines extRaw = [] then none else some ([';'].intercalate (rulesetLines extRaw))
  | _ => none

def familyText (browser : Browser ν) (state : FormState ν) : PlacementKey → Option Text
  | .extRuleset => rulesetText state
  | .inlineRules => sentText browser state PlacementKey.inlineRules.key

theorem rulesetParam_eq (state : FormState ν) : rulesetParam state = ((rulesetText state).map fun text =>
    (ruleParamFor PlacementKey.extRuleset.key (placementOf state.options PlacementKey.extRuleset.key), text)).toList := by
  unfold rulesetParam rulesetText
  cases state.options.get (chars "ext_ruleset") with
  | none => rfl
  | some value =>
    cases value with
    | undefined | flag | number => rfl
    | text extRaw =>
      dsimp only
      split <;> rfl

theorem ruleParamFor_injective {key : Text} {placement other : RulePlacement} (same : ruleParamFor key placement = ruleParamFor key other) :
    placement = other := by
  cases placement <;> cases other <;> simp_all [ruleParamFor, prependParam, chars]

theorem lastValue_family (known : KnownKeys state.options) (family : PlacementKey) (placement : RulePlacement) :
    lastValue (ruleParamFor family.key placement) (params browser state) =
      if placementOf state.options family.key = placement then familyText browser state family else none := by
  cases family with
  | extRuleset =>
    have options : lastValue (ruleParamFor PlacementKey.extRuleset.key placement) (optionParams browser state) = none := by
      refine lastValue_optionParams_none known fun key plain same => ?_
      rcases ruleParamFor_cases PlacementKey.extRuleset.key placement with one | one
      · exact (paramName_names plain).2.1 (same.trans one)
      · exact (paramName_names plain).2.2 (same.trans one)
    rw [lastValue_outside (by cases placement <;> decide), options, Option.none_or, rulesetParam_eq, familyText]
    cases rulesetText state with
    | none => simp [lastValue, Keyed.find]
    | some text =>
      rw [Option.map_some, Option.toList_some, lastValue, List.reverse_singleton, Keyed.find_cons]
      by_cases same : placementOf state.options PlacementKey.extRuleset.key = placement
      · rw [if_pos same, if_pos (by rw [same])]
      · rw [if_neg same, if_neg fun equal => same (ruleParamFor_injective equal)]
        rfl
  | inlineRules =>
    split
    next same => rw [← same, ← paramName_inlineRules, lastValue_option known plain_inlineRules, familyText]
    next different =>
      refine lastValue_none known (by cases placement <;> decide) (by cases placement <;> decide) fun key plain same => ?_
      by_cases here : key = PlacementKey.inlineRules.key
      · rw [here, paramName_inlineRules] at same
        exact different (ruleParamFor_injective same)
      · rw [paramName_other state plain here] at same
        rcases ruleParamFor_cases PlacementKey.inlineRules.key placement with one | one
        · exact here (same.trans one)
        · exact (plain_names plain).2 _ (same.trans one)

theorem lastValue_unknown (known : KnownKeys state.options) (unknown : Unknown name) : lastValue name (params browser state) = none := by
  obtain ⟨outside, prepend, none⟩ := unknown
  have other : ∀ key, (optionDef key).isSome → key ≠ name := by
    rintro key found rfl
    rw [none] at found
    cases found
  refine lastValue_none known outside ⟨(other _ (by decide)).symm, prepend _⟩ fun key plain same => ?_
  by_cases here : key = PlacementKey.inlineRules.key
  · rw [here, paramName_inlineRules] at same
    rcases ruleParamFor_cases PlacementKey.inlineRules.key (placementOf state.options PlacementKey.inlineRules.key) with one | one
    · exact other _ plain_inlineRules.1 (one.symm.trans same)
    · exact prepend _ (same.symm.trans one)
  · rw [paramName_other state plain here] at same
    exact other key plain.1 same

end Lookups

end SubConverter.Web
