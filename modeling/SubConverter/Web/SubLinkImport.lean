import Mathlib
import SubConverter.Web.SubLinkParams

set_option autoImplicit false

namespace SubConverter.Web

variable {ν : Type} {browser : Browser ν} {state : FormState ν}

section Imports

variable {key name : Text} {entry : OptionDef} {value : OptionValue ν}

def HasType (browser : Browser ν) : OptionType → OptionValue ν → Prop
  | .boolean, value => value = .undefined ∨ ∃ set, value = .flag set
  | .number, value => value = .undefined ∨ ∃ n : Int, n.natAbs ≤ maxSafeInteger ∧ value = .number (browser.integer n)
  | .string, value | .enum, value => value = .undefined ∨ ∃ text, value = .text text

def Declared (browser : Browser ν) (options : Options ν) : Prop :=
  ∀ entry ∈ options.entries, (∃ family : PlacementKey, entry.1 = rulePlacementKey family.key) ∨
    ∃ known, optionDef entry.1 = some known ∧ HasType browser known.type entry.2

theorem Declared.known {options : Options ν} (declared : Declared browser options) : KnownKeys options := by
  intro entry there
  refine (declared entry there).imp_right ?_
  rintro ⟨known, found, -⟩
  rw [found]
  rfl

theorem Declared.typed {options : Options ν} (declared : Declared browser options) (found : optionDef key = some entry)
    (there : options.get key = some value) : HasType browser entry.type value := by
  rcases declared _ (Keyed.mem_of_find there) with ⟨family, mode⟩ | ⟨known, same, typed⟩
  · exact absurd mode ((optionDef_names found).2 family).2
  · rw [found] at same
    rwa [Option.some.inj same]

theorem applyGitHubProxy_nil (browser : Browser ν) (value : Text) : applyGitHubProxy browser value [] = value := by
  rw [applyGitHubProxy, if_pos (.inl (by decide))]

theorem readOption_paramText {text : Text} (standard : browser.Standard) (typed : HasType browser entry.type value)
    (other : entry.key ≠ PlacementKey.extRuleset.key) (written : paramText browser [] name value = some text) :
    readOption browser entry text = value := by
  rw [readOption, if_neg (show entry.key ≠ chars "ext_ruleset" from other)]
  cases kind : entry.type with
  | boolean =>
    rw [kind] at typed
    rcases typed with rfl | ⟨set, rfl⟩
    · cases written
    · cases set with
      | true =>
        simp only [paramText, Option.some.injEq] at written
        split at written
        next => rw [← written]; rfl
        next => rw [← written]; rfl
      | false =>
        simp only [paramText] at written
        split at written
        next => rw [← Option.some.inj written]; rfl
        next => cases written
  | number =>
    rw [kind] at typed
    rcases typed with rfl | ⟨n, safe, rfl⟩
    · cases written
    · simp only [paramText, Option.some.injEq] at written
      rw [← written, standard.numberText n safe, standard.readNumber n safe]
      rfl
  | string | enum =>
    rw [kind] at typed
    rcases typed with rfl | ⟨given, rfl⟩
    · cases written
    · cases given with
      | nil => cases written
      | cons c rest =>
        simp only [paramText, applyGitHubProxy_nil, ite_self, Option.some.injEq] at written
        rw [written]

theorem read_sent (standard : browser.Standard) (declared : Declared browser state.options) (direct : proxyPrefix state = [])
    (found : optionDef key = some entry) (other : key ≠ PlacementKey.extRuleset.key) :
    (sentText browser state key).map (readOption browser entry) =
      (state.options.get key).filter fun value => (optionParam browser state (key, value)).isSome := by
  cases there : state.options.get key with
  | none => rw [sentText, there]; rfl
  | some value =>
    rw [sentText, there, Option.bind_some]
    cases sent : optionParam browser state (key, value) with
    | none => simp [Option.filter, sent]
    | some param =>
      have read : readOption browser entry param.2 = value := by
        unfold optionParam at sent
        split_ifs at sent
        obtain ⟨text, written, rfl⟩ := Option.map_eq_some_iff.mp sent
        rw [direct] at written
        exact readOption_paramText standard (declared.typed found there) ((optionDef_some found).2 ▸ other) written
      simp [Option.filter, sent, read]

def imported (browser : Browser ν) (state : FormState ν) : FormState ν where
  target := state.target
  sourceUrl := wireToSourceUrls (joinSourceUrlsForWire state.sourceUrl)
  subscriptionName := (lastValue (chars "filename") (params browser state)).getD []
  dnsTemplateId := some ((lastValue (chars "dns_template") (params browser state)).getD [])
  backendBase := state.backendBase
  options := (readParams browser (params browser state)).options

theorem imported_target (browser : Browser ν) (state : FormState ν) : (imported browser state).target = state.target := by
  rw [imported]

theorem imported_sourceUrl (browser : Browser ν) (state : FormState ν) :
    (imported browser state).sourceUrl = wireToSourceUrls (joinSourceUrlsForWire state.sourceUrl) := by
  rw [imported]

theorem imported_get (standard : browser.Standard) (declared : Declared browser state.options) (direct : proxyPrefix state = [])
    (plain : Plain key) (other : key ≠ PlacementKey.inlineRules.key) : (imported browser state).options.get key =
      (state.options.get key).filter fun value => (optionParam browser state (key, value)).isSome := by
  obtain ⟨entry, found⟩ := Option.isSome_iff_exists.mp plain.1
  have outside : ∀ family : PlacementKey, key ≠ family.key ∧ key ≠ rulePlacementKey family.key := by
    intro family
    refine ⟨?_, ((optionDef_names found).2 family).2⟩
    cases family with
    | extRuleset => exact plain.2
    | inlineRules => exact other
  rw [imported, read_other _ outside, found, Option.bind_some, ← read_sent standard declared direct found plain.2,
    ← lastValue_option declared.known plain, paramName_other state plain other]

theorem readOption_family (browser : Browser ν) (family : PlacementKey) (text : Text) :
    readOption browser ⟨family.key, .string, false⟩ text = .text (ruleFamilyValue family text) := by
  cases family <;> rfl

theorem imported_family (known : KnownKeys state.options) (family : PlacementKey) :
    (imported browser state).options.get family.key =
      (familyText browser state family).map fun text => .text (ruleFamilyValue family text) := by
  have first := @lastValue_family _ browser _ known family .prepend
  have last := @lastValue_family _ browser _ known family .append
  rw [imported, read_key, show prependParam family.key = ruleParamFor family.key .prepend from rfl, first,
    show lastValue family.key _ = _ from last]
  cases placementOf state.options family.key <;> cases familyText browser state family <;> simp [readOption_family]

theorem imported_placement (known : KnownKeys state.options) (family : PlacementKey) :
    placementOf (imported browser state).options family.key =
      if (familyText browser state family).isSome then placementOf state.options family.key else .append := by
  have first := @lastValue_family _ browser _ known family .prepend
  rw [placementOf, imported, read_mode, show prependParam family.key = ruleParamFor family.key .prepend from rfl, first]
  cases placementOf state.options family.key <;> cases familyText browser state family <;> rfl

theorem inlineRules_text (browser : Browser ν) (state : FormState ν) (text : Text) :
    (optionParam browser state (PlacementKey.inlineRules.key, .text text)).map Prod.snd = if text = [] then none else some text := by
  have name : paramName state PlacementKey.inlineRules.key ≠ chars "config" := by
    rw [paramName_inlineRules]
    cases placementOf state.options PlacementKey.inlineRules.key <;> decide
  rw [optionParam, if_neg (by simp [PlacementKey.key, chars]),
    if_neg (show PlacementKey.inlineRules.key ≠ chars "ext_ruleset" by decide),
    if_neg (show ¬ placementKeys.any fun family => PlacementKey.inlineRules.key = rulePlacementKey family.key by decide)]
  cases text with
  | nil => rfl
  | cons c rest => simp [paramText, name]

theorem imported_familyText (declared : Declared browser state.options)
    (rows : ∀ extRaw, state.options.get PlacementKey.extRuleset.key = some (.text extRaw) → ∀ line ∈ rulesetLines extRaw, RowLine line)
    (family : PlacementKey) : familyText browser (imported browser state) family = familyText browser state family := by
  cases family with
  | extRuleset =>
    have got : (imported browser state).options.get (chars "ext_ruleset") = _ := imported_family declared.known .extRuleset
    rw [familyText] at got
    rw [familyText, familyText]
    cases sent : rulesetText state with
    | none =>
      rw [rulesetText, got, sent]
      rfl
    | some text =>
      rw [rulesetText, got, sent]
      unfold rulesetText at sent
      split at sent
      next extRaw there =>
        split at sent
        next => cases sent
        next present =>
          rw [← Option.some.inj sent]
          simp only [Option.map_some, rows_again (rows extRaw there) present, present, if_false]
      next => cases sent
  | inlineRules =>
    have got := @imported_family _ browser _ declared.known .inlineRules
    rw [familyText] at got
    rw [familyText, familyText]
    cases sent : sentText browser state PlacementKey.inlineRules.key with
    | none =>
      rw [sent] at got
      rw [sentText, got]
      rfl
    | some text =>
      rw [sent] at got
      rw [sentText, got, Option.map_some, Option.bind_some, inlineRules_text]
      obtain ⟨value, there, written⟩ := Option.bind_eq_some_iff.mp sent
      have typed := declared.typed (optionDef_key .inlineRules) there
      rcases typed with rfl | ⟨given, rfl⟩
      · simp [optionParam, paramText] at written
      · rw [inlineRules_text] at written
        split at written
        next => cases written
        next present =>
          obtain rfl := Option.some.inj written
          exact if_neg present

theorem imported_known (browser : Browser ν) (state : FormState ν) : KnownKeys (imported browser state).options := by
  intro entry there
  have found : (imported browser state).options.get entry.1 = some entry.2 :=
    Keyed.find_of_mem (imported browser state).options.distinct there
  by_cases family : ∃ family : PlacementKey, entry.1 = family.key ∨ entry.1 = rulePlacementKey family.key
  · obtain ⟨family, same | same⟩ := family
    · rw [same, optionDef_key]
      exact .inr rfl
    · exact .inl ⟨family, same⟩
  · simp only [not_exists, not_or] at family
    rw [imported, read_other _ family, Option.bind_eq_some_iff] at found
    obtain ⟨known, found, -⟩ := found
    rw [found]
    exact .inr rfl

theorem imported_nameParam (known : KnownKeys state.options) : nameParam (imported browser state) = nameParam state := by
  have name : trim ((lastValue (chars "filename") (params browser state)).getD []) = trim state.subscriptionName := by
    rw [lastValue_filename known]
    split
    next none => rw [none]; rfl
    next => exact trim_trim _
  rw [nameParam, nameParam, imported, name]

def dnsSwitch : Text := chars "clash.dns"

theorem dnsSwitch_sent (browser : Browser ν) (state : FormState ν) : (optionParam browser state (dnsSwitch, .flag true)).isSome := by
  rw [optionParam, if_neg (by simp [dnsSwitch, chars]), if_neg (show dnsSwitch ≠ chars "ext_ruleset" by decide),
    if_neg (show ¬ placementKeys.any fun family => dnsSwitch = rulePlacementKey family.key by decide)]
  rfl

def SendsTemplate (state : FormState ν) : Prop :=
  state.options.get dnsSwitch = some (.flag true) ∧ state.target ∈ clashTargets ∧ trim (state.dnsTemplateId.getD []) ≠ []

theorem dnsParam_on (on : SendsTemplate state) : dnsParam state = [(chars "dns_template", trim (state.dnsTemplateId.getD []))] := by
  obtain ⟨switch, target, template⟩ := on
  rw [dnsParam, show chars "clash.dns" = dnsSwitch from rfl, switch]
  exact if_pos ⟨target, template⟩

theorem dnsParam_off (off : ¬ SendsTemplate state) : dnsParam state = [] := by
  unfold dnsParam
  dsimp only
  split
  next switch => exact if_neg fun both => off ⟨switch, both⟩
  next => rfl

theorem imported_dnsParam (standard : browser.Standard) (declared : Declared browser state.options) (direct : proxyPrefix state = []) :
    dnsParam (imported browser state) = dnsParam state := by
  have got := @imported_get _ browser _ dnsSwitch standard declared direct ⟨by decide, by decide⟩ (by decide)
  have switch : (imported browser state).options.get dnsSwitch = some (.flag true) ↔ state.options.get dnsSwitch = some (.flag true) := by
    rw [got, Option.filter_eq_some_iff]
    exact and_iff_left_of_imp fun _ => dnsSwitch_sent browser state
  have template : (imported browser state).dnsTemplateId.getD [] = (lastValue (chars "dns_template") (dnsParam state)).getD [] := by
    rw [imported, lastValue_dns declared.known, Option.getD_some]
  by_cases on : SendsTemplate state
  · have same : trim ((imported browser state).dnsTemplateId.getD []) = trim (state.dnsTemplateId.getD []) := by
      rw [template, dnsParam_on on]
      exact trim_trim _
    have again : SendsTemplate (imported browser state) := by
      rw [SendsTemplate, imported_target, switch, same]
      exact on
    rw [dnsParam_on on, dnsParam_on again, same]
  · have none : trim ((imported browser state).dnsTemplateId.getD []) = [] := by
      rw [template, dnsParam_off on]
      rfl
    rw [dnsParam_off on, dnsParam_off fun other => other.2.2 none]

structure Importable (browser : Browser ν) (state : FormState ν) : Prop where
  target : state.target ≠ []
  present : splitSourceUrls state.sourceUrl ≠ []
  sources : ∀ source ∈ sourcesOf state.sourceUrl, Kept source
  declared : Declared browser state.options
  rows : ∀ extRaw, state.options.get PlacementKey.extRuleset.key = some (.text extRaw) → ∀ line ∈ rulesetLines extRaw, RowLine line
  direct : proxyPrefix state = []
  absolute : (browser.parseUrl (trim (backendBaseForState browser state ++ chars "/sub"))).isSome
  bare : '?' ∉ backendBaseForState browser state ∧ '#' ∉ backendBaseForState browser state

theorem imported_params (standard : browser.Standard) (importable : Importable browser state) (name : Text) :
    lastValue name (params browser (imported browser state)) = lastValue name (params browser state) := by
  obtain ⟨-, -, sources, declared, rows, direct, -, -⟩ := importable
  have known := declared.known
  have again := imported_known browser state
  by_cases form : name ∈ formParams
  · have url : joinSourceUrlsForWire (imported browser state).sourceUrl = joinSourceUrlsForWire state.sourceUrl := by
      rw [imported_sourceUrl]
      exact sources_again sources
    have dns : dnsParam (imported browser state) = dnsParam state := imported_dnsParam standard declared direct
    have filename : nameParam (imported browser state) = nameParam state := imported_nameParam known
    rw [lastValue_form known form, lastValue_form again form, dns, filename, url, imported_target]
  by_cases family : ∃ (family : PlacementKey) (placement : RulePlacement), name = ruleParamFor family.key placement
  · obtain ⟨family, placement, rfl⟩ := family
    rw [lastValue_family known, lastValue_family again, imported_familyText declared rows, imported_placement known]
    cases familyText browser state family with
    | none => simp
    | some text => rfl
  have outside : ∀ family : PlacementKey, name ≠ family.key ∧ name ≠ prependParam family.key := fun placed =>
    ⟨fun same => family ⟨placed, .append, same⟩, fun same => family ⟨placed, .prepend, same⟩⟩
  by_cases plain : Plain name
  · have other := (outside .inlineRules).1
    have got := imported_get standard declared direct plain other
    have here := @lastValue_option _ browser _ _ known plain
    have there := @lastValue_option _ browser _ _ again plain
    rw [paramName_other _ plain other] at here there
    have same : ∀ value, optionParam browser (imported browser state) (name, value) = optionParam browser state (name, value) := by
      intro value
      have proxy : proxyPrefix (imported browser state) = proxyPrefix state := by rw [direct]; rfl
      rw [optionParam, optionParam, proxy, paramName_other _ plain other, paramName_other _ plain other, imported_target]
    rw [here, there, sentText, sentText, got]
    cases state.options.get name with
    | none => rw [Option.filter_none, Option.bind_none, Option.bind_none]
    | some value =>
      cases sent : optionParam browser state (name, value) with
      | none => simp [Option.filter, sent]
      | some param => simp [Option.filter, sent, same]
  · have unknown : Unknown name := by
      refine ⟨form, fun family => (outside family).2, ?_⟩
      by_contra found
      exact plain ⟨Option.ne_none_iff_isSome.mp found, (outside .extRuleset).1⟩
    rw [lastValue_unknown known unknown, lastValue_unknown again unknown]

end Imports

section Links

variable {c : Char}

theorem queryChar_bounds (query : FormUrlencoded.isQueryChar c = true) : 0x25 ≤ c.toNat ∧ c.toNat ≤ 0x7a := by
  rw [FormUrlencoded.isQueryChar, Bool.or_eq_true, decide_eq_true_eq] at query
  rcases query with letter | mark
  · have same : c.val.toNat = c.toNat := rfl
    have ends : 'A'.val.toNat = 0x41 ∧ 'Z'.val.toNat = 0x5a ∧ 'a'.val.toNat = 0x61 ∧ 'z'.val.toNat = 0x7a ∧ '0'.val.toNat = 0x30 ∧
        '9'.val.toNat = 0x39 := by decide
    simp only [Char.isAlphanum, Char.isAlpha, Char.isUpper, Char.isLower, Char.isDigit, Bool.or_eq_true, Bool.and_eq_true,
      decide_eq_true_eq, ge_iff_le, UInt32.le_iff_toNat_le, same] at letter
    omega
  · have bounds : (chars "*-._+%&=").all fun c => 0x25 ≤ c.toNat && c.toNat ≤ 0x7a := by decide
    simpa using List.all_eq_true.mp bounds c mark

theorem blank_bounds (blank : isBlank c = true) : c.toNat ≤ 0x20 ∨ 0xa0 ≤ c.toNat := by
  rw [isBlank, Bool.or_eq_true, decide_eq_true_eq, Bool.and_eq_true, decide_eq_true_eq, decide_eq_true_eq] at blank
  rcases blank with listed | ⟨low, -⟩
  · have bounds : ['\t', '\n', '\x0b', '\x0c', '\r', ' ', '\u00a0', '\u1680', '\u2028', '\u2029', '\u202f', '\u205f', '\u3000', '\ufeff'].all
        fun c => c.toNat ≤ 0x20 || 0xa0 ≤ c.toNat := by decide
    simpa using List.all_eq_true.mp bounds c listed
  · have large : ('\u2000').toNat ≤ c.toNat := low
    exact .inr (le_trans (by decide) large)

theorem not_blank_query (query : FormUrlencoded.isQueryChar c = true) : isBlank c = false := by
  rw [Bool.eq_false_iff]
  intro blank
  have small := queryChar_bounds query
  have far := blank_bounds blank
  omega

theorem trim_link {query : Text} (allowed : ∀ c ∈ query, FormUrlencoded.isQueryChar c = true) (base : Text) :
    trim (base ++ chars "/sub" ++ '?' :: query) = trim (base ++ chars "/sub") ++ '?' :: query := by
  have ends : ('?' :: query).rdropWhile isBlank = '?' :: query := by
    rw [List.rdropWhile_eq_self_iff]
    intro present
    rw [Bool.not_eq_true]
    rcases List.mem_cons.mp (List.getLast_mem present) with mark | inside
    · rw [mark]
      decide
    · exact not_blank_query (allowed _ inside)
  have front : base ++ chars "/sub" = (base ++ chars "/su") ++ 'b' :: [] := by simp [chars]
  rw [front, List.append_assoc, List.cons_append, trim, trim, strip_marked (by decide), strip_marked (by decide), List.nil_append, ends,
    List.rdropWhile_nil, List.append_assoc, List.cons_append, List.nil_append]

theorem trim_path (base : Text) : chars "/sub" <:+ trim (base ++ chars "/sub") := by
  have path : (chars "sub").rdropWhile isBlank = chars "sub" := by decide
  have whole := @strip_marked _ isBlank '/' (by decide) base (chars "sub")
  rw [path] at whole
  exact ⟨_, whole.symm⟩

theorem linkParams_built (standard : browser.Standard) (absolute : (browser.parseUrl (trim (backendBaseForState browser state ++ chars "/sub"))).isSome)
    (bare : '?' ∉ backendBaseForState browser state ∧ '#' ∉ backendBaseForState browser state) :
    linkParams browser (buildSubUrl browser state) = some (params browser state) := by
  have allowed := FormUrlencoded.serialize_chars (params browser state)
  have link : buildSubUrl browser state = backendBaseForState browser state ++ chars "/sub" ++ '?' :: FormUrlencoded.serialize (params browser state) := by
    simp [buildSubUrl, chars]
  have question : '?' ∉ trim (backendBaseForState browser state ++ chars "/sub") :=
    not_mem_trim (List.not_mem_append bare.1 (by decide))
  have hash : '#' ∉ trim (backendBaseForState browser state ++ chars "/sub") :=
    not_mem_trim (List.not_mem_append bare.2 (by decide))
  obtain ⟨url, parsed, query⟩ := standard.query _ _ (trim_path _) absolute question hash allowed
  rw [linkParams, link, trim_link allowed, parsed, Option.map_some, query, FormUrlencoded.parse_serialize]

theorem find_eq_lastValue (browser : Browser ν) (state : FormState ν) (name : Text) :
    Keyed.find name (params browser state) = lastValue name (params browser state) := by
  rw [find_params, lastValue_params]

theorem joinSourceUrlsForWire_ne_nil {text : Text} (present : splitSourceUrls text ≠ []) : joinSourceUrlsForWire text ≠ [] := by
  obtain ⟨line, rest, lines⟩ := List.exists_cons_of_ne_nil present
  have filled : line ≠ [] := by
    have there : line ∈ splitSourceUrls text := by rw [lines]; exact List.mem_cons_self
    simpa using (List.mem_filter.mp there).2
  rw [joinSourceUrlsForWire, lines]
  cases rest with
  | nil => simpa using filled
  | cons next more => simp [List.intercalate_cons_cons]

theorem unknown_nil (known : KnownKeys state.options) : (readParams browser (params browser state)).unknown = [] := by
  have nothing : ∀ key, Keyed.find key (readParams browser (params browser state)).unknown = none := by
    intro key
    by_cases family : ∃ family : PlacementKey, key = family.key
    · obtain ⟨family, rfl⟩ := family
      have first := @lastValue_family _ browser _ known family .prepend
      have last := @lastValue_family _ browser _ known family .append
      rw [read_unknown_key, show prependParam family.key = ruleParamFor family.key .prepend from rfl, first,
        show lastValue family.key _ = _ from last]
      cases placementOf state.options family.key <;> simp
    · rw [Option.eq_none_iff_forall_ne_some]
      intro value found
      rw [read_unknown_other _ _ _ (not_exists.mp family)] at found
      obtain ⟨unknown, sent⟩ := found
      rw [lastValue_unknown known unknown] at sent
      cases sent
  cases found : (readParams browser (params browser state)).unknown with
  | nil => rfl
  | cons param rest =>
    have none := nothing param.1
    rw [found, Keyed.find_cons, if_pos rfl] at none
    cases none

theorem parse_built (standard : browser.Standard) (importable : Importable browser state) :
    parseSubUrl browser (buildSubUrl browser state) = .ok ⟨{ imported browser state with backendBase := [] }, []⟩ := by
  have known := importable.declared.known
  have sent := joinSourceUrlsForWire_ne_nil importable.present
  simp only [parseSubUrl, linkParams_built standard importable.absolute importable.bare, find_eq_lastValue, lastValue_target known,
    lastValue_url known, Option.getD_some, importable.target, sent, or_self, if_false, unknown_nil known, imported]

theorem imported_rebuilt (browser : Browser ν) (state : FormState ν) :
    ({ ({ imported browser state with backendBase := [] } : FormState ν) with backendBase := state.backendBase } : FormState ν) =
      imported browser state := by
  simp only [imported]

theorem imported_base (browser : Browser ν) (state : FormState ν) :
    backendBaseForState browser (imported browser state) = backendBaseForState browser state := by
  have same : (imported browser state).backendBase = state.backendBase := by rw [imported]
  rw [backendBaseForState, backendBaseForState, same]

end Links

section Instances

def plainUrl (text : Text) : Option Url :=
  (cutAt (chars "://") text).map fun parts =>
    { hostname := parts.2.takeWhile fun c => c ∉ ['/', '?', '#']
      pathname := (parts.2.dropWhile fun c => c ∉ ['/', '?', '#']).takeWhile fun c => c ∉ ['?', '#']
      query := ((cutAt ['?'] (text.takeWhile fun c => c ≠ '#')).map Prod.snd).getD [] }

def digitsNumber (digits : Text) : Option Int :=
  if digits ≠ [] ∧ digits.all Char.isDigit then some (Nat.ofDigitChars 10 digits 0) else none

def wholeNumber (text : Text) : Option Int :=
  if text.head? = some '-' then (digitsNumber text.tail).map Neg.neg else digitsNumber text

-- A browser that knows hierarchical addresses and whole numbers.
def plainBrowser : Browser Int where
  parseUrl := plainUrl
  defaultBackendBase := []
  integer n := n
  numberText := Handler.integer
  readNumber := wholeNumber

theorem decimal_digits (n : Nat) : decimal n ≠ [] ∧ (decimal n).all Char.isDigit = true := by
  refine ⟨Nat.toDigits_ne_nil, ?_⟩
  rw [List.all_eq_true]
  exact fun c there => Nat.isDigit_of_mem_toDigits (by decide) (by decide) there

theorem digitsNumber_decimal (n : Nat) : digitsNumber (decimal n) = some (n : Int) := by
  rw [digitsNumber, if_pos (decimal_digits n), decimal, Nat.ofDigitChars_ten_toDigits]

theorem wholeNumber_integer (n : Int) : wholeNumber (Handler.integer n) = some n := by
  rw [Handler.integer]
  split
  next negative =>
    rw [wholeNumber, List.head?_cons, if_pos rfl, List.tail_cons, digitsNumber_decimal, Option.map_some]
    exact congrArg some (by omega)
  next positive =>
    have unsigned : (decimal n.natAbs).head? ≠ some '-' := fun minus =>
      absurd (not_mem_decimal (by decide)) (not_not_intro (List.mem_of_head? minus))
    rw [wholeNumber, if_neg unsigned, digitsNumber_decimal]
    exact congrArg some (by omega)

theorem plainUrl_query {location query : Text} (absolute : (plainUrl location).isSome) (question : '?' ∉ location) (hash : '#' ∉ location)
    (allowed : ∀ c ∈ query, FormUrlencoded.isQueryChar c = true) :
    ∃ url, plainUrl (location ++ '?' :: query) = some url ∧ url.query = query := by
  obtain ⟨url, parsed⟩ := Option.isSome_iff_exists.mp absolute
  obtain ⟨⟨scheme, rest⟩, cut, -⟩ := Option.map_eq_some_iff.mp parsed
  have found : cutAt (chars "://") (location ++ '?' :: query) ≠ none := by
    rw [Ne, cutAt_eq_none_iff (by decide), not_not]
    exact ⟨scheme, rest ++ '?' :: query, by rw [eq_of_cutAt cut]; simp⟩
  obtain ⟨parts, again⟩ := Option.ne_none_iff_exists'.mp found
  have unmarked : (location ++ '?' :: query).takeWhile (fun c => c ≠ '#') = location ++ '?' :: query := by
    rw [List.takeWhile_eq_self_iff]
    intro c there
    rw [decide_eq_true_eq]
    rintro rfl
    rcases List.mem_append.mp there with front | back
    · exact hash front
    · rcases List.mem_cons.mp back with mark | inside
      · cases mark
      · exact absurd (allowed '#' inside) (by decide)
  have split : cutAt ['?'] (location ++ '?' :: query) = some (location, query) := cutAt_mark_iff.mpr ⟨rfl, question⟩
  rw [plainUrl, again, Option.map_some]
  refine ⟨_, rfl, ?_⟩
  simp only [unmarked, split, Option.map_some, Option.getD_some]

theorem plainBrowser_standard : plainBrowser.Standard where
  query _ _ _ := plainUrl_query
  numberText _ _ := rfl
  readNumber n _ := wholeNumber_integer n

-- A form with an option of each type, rules that come first, and two sources.
def filledState : FormState Int where
  target := chars "clash"
  sourceUrl := chars "https://a/s\nhttps://b/s"
  backendBase := chars "http://h/"
  options := ⟨[(chars "udp", .flag false), (chars "interval", .number 60), (chars "ext_ruleset", .text (chars "Proxy,https://a/p\n# note")),
    (chars "ext_ruleset_mode", .text (chars "prepend")), (chars "rename", .text (chars "a@b"))], by decide⟩

theorem filledState_declared : Declared plainBrowser filledState.options := by
  simp only [Declared, filledState, List.forall_mem_cons]
  refine ⟨.inr ⟨⟨chars "udp", .boolean, true⟩, by decide, .inr ⟨false, rfl⟩⟩,
    .inr ⟨⟨chars "interval", .number, false⟩, by decide, .inr ⟨60, by decide, rfl⟩⟩,
    .inr ⟨⟨chars "ext_ruleset", .string, false⟩, by decide, .inr ⟨_, rfl⟩⟩, .inl ⟨.extRuleset, by decide⟩,
    .inr ⟨⟨chars "rename", .string, false⟩, by decide, .inr ⟨_, rfl⟩⟩, by simp⟩

theorem filledState_importable : Importable plainBrowser filledState where
  target := by decide
  present := by decide
  sources := by decide
  declared := filledState_declared
  rows := by
    intro extRaw there line inside
    have raw : filledState.options.get PlacementKey.extRuleset.key = some (.text (chars "Proxy,https://a/p\n# note")) := by decide
    rw [raw] at there
    obtain rfl := OptionValue.text.inj (Option.some.inj there)
    have lines : rulesetLines (chars "Proxy,https://a/p\n# note") = [chars "Proxy,https://a/p"] := by decide
    rw [lines, List.mem_singleton] at inside
    rw [inside]
    exact ⟨chars "Proxy", chars "https://a/p", by decide⟩
  direct := by decide
  absolute := by decide
  bare := by decide

end Instances

section Claims

theorem import_reproduces (standard : browser.Standard) :
    (∀ state, Importable browser state → ∃ parsed, parseSubUrl browser (buildSubUrl browser state) = .ok parsed ∧ parsed.unknown = [] ∧
      ∃ sent again, linkParams browser (buildSubUrl browser state) = some sent ∧
        linkParams browser (buildSubUrl browser { parsed.state with backendBase := state.backendBase }) = some again ∧
          ∀ param, param ∈ again ↔ param ∈ sent) ∧
    ∀ input sent, linkParams browser input = some sent → (Keyed.find (chars "target") sent).getD [] ≠ [] →
      (Keyed.find (chars "url") sent).getD [] ≠ [] → ∃ parsed, parseSubUrl browser input = .ok parsed ∧
        ∀ (family : PlacementKey) (prependValue appendValue : Text), lastValue (prependParam family.key) sent = some prependValue →
          lastValue family.key sent = some appendValue →
            parsed.state.options.get family.key = some (.text (ruleFamilyValue family prependValue)) ∧
              placementOf parsed.state.options family.key = .prepend ∧ Keyed.find family.key parsed.unknown = some appendValue := by
  constructor
  · intro state importable
    refine ⟨⟨{ imported browser state with backendBase := [] }, []⟩, parse_built standard importable, rfl, params browser state,
      params browser (imported browser state), linkParams_built standard importable.absolute importable.bare, ?_, fun param => ?_⟩
    · rw [imported_rebuilt]
      apply linkParams_built standard
      · rw [imported_base]
        exact importable.absolute
      · rw [imported_base]
        exact importable.bare
    · rw [← Prod.eta param, Keyed.mem_iff_find (params_distinct _ _), Keyed.mem_iff_find (params_distinct _ _), find_eq_lastValue,
        find_eq_lastValue, imported_params standard importable]
  · intro input sent link target url
    have parsed : parseSubUrl browser input = .ok
        ⟨{ target := (Keyed.find (chars "target") sent).getD []
           sourceUrl := wireToSourceUrls ((Keyed.find (chars "url") sent).getD [])
           subscriptionName := (Keyed.find (chars "filename") sent).getD []
           dnsTemplateId := some ((Keyed.find (chars "dns_template") sent).getD [])
           options := (readParams browser sent).options }, (readParams browser sent).unknown⟩ := by
      simp only [parseSubUrl, link, target, url, or_self, if_false]
    refine ⟨_, parsed, fun family prependValue appendValue first last => ⟨?_, ?_, ?_⟩⟩
    · rw [read_key, first]
      rfl
    · rw [placementOf, read_mode, first]
      rfl
    · rw [read_unknown_key, first, last]
      rfl

def bothLink : Text := chars "http://h/sub?ext_ruleset=A,b&target=clash&url=u&ext_ruleset_prepend=C,d"

theorem import_reproduces_filled :
    (∃ parsed, parseSubUrl plainBrowser (buildSubUrl plainBrowser filledState) = .ok parsed ∧ parsed.unknown = [] ∧
      ∃ sent again, linkParams plainBrowser (buildSubUrl plainBrowser filledState) = some sent ∧
        linkParams plainBrowser (buildSubUrl plainBrowser { parsed.state with backendBase := chars "http://h/" }) = some again ∧
          ∀ param, param ∈ again ↔ param ∈ sent) ∧
    ∃ parsed, parseSubUrl plainBrowser bothLink = .ok parsed ∧
      parsed.state.options.get (chars "ext_ruleset") = some (.text (ruleFamilyValue .extRuleset (chars "C,d"))) ∧
        placementOf parsed.state.options (chars "ext_ruleset") = .prepend ∧
          Keyed.find (chars "ext_ruleset") parsed.unknown = some (chars "A,b") := by
  have sound := import_reproduces plainBrowser_standard
  refine ⟨sound.1 filledState filledState_importable, ?_⟩
  obtain ⟨parsed, read, both⟩ := sound.2 bothLink [(chars "ext_ruleset", chars "A,b"), (chars "target", chars "clash"), (chars "url", ['u']),
    (chars "ext_ruleset_prepend", chars "C,d")] (by decide) (by decide) (by decide)
  exact ⟨parsed, read, both .extRuleset (chars "C,d") (chars "A,b") (by decide) (by decide)⟩

def builtAgain (browser : Browser ν) (state : FormState ν) : Option Params :=
  (parseSubUrl browser (buildSubUrl browser state)).toOption.bind fun parsed =>
    linkParams browser (buildSubUrl browser { parsed.state with backendBase := state.backendBase })

def barState : FormState Int where
  target := chars "clash"
  sourceUrl := chars "a||b"
  backendBase := chars "http://h"

def blankState : FormState Int where
  target := chars "clash"
  sourceUrl := ['u']
  backendBase := chars "http://h"
  options := ⟨[(chars "ext_ruleset", .text (chars "A, b"))], by decide⟩

-- What is kept of the rules of a family, in the form and beside it.
def keptRules (family : PlacementKey) (input : Text) : Option (Option (OptionValue Int) × Option Text) :=
  (parseSubUrl plainBrowser input).toOption.map fun parsed =>
    (parsed.state.options.get family.key, Keyed.find family.key parsed.unknown)

theorem import_changes :
    (linkParams plainBrowser (buildSubUrl plainBrowser barState) = some [(chars "target", chars "clash"), (chars "url", chars "a||b")] ∧
      builtAgain plainBrowser barState = some [(chars "target", chars "clash"), (chars "url", chars "a|b")]) ∧
    (linkParams plainBrowser (buildSubUrl plainBrowser blankState) =
        some [(chars "target", chars "clash"), (chars "url", ['u']), (chars "ext_ruleset", chars "A, b")] ∧
      builtAgain plainBrowser blankState =
        some [(chars "target", chars "clash"), (chars "url", ['u']), (chars "ext_ruleset", chars "A,b")]) ∧
    keptRules .extRuleset (chars "http://h/sub?target=clash&url=u&ext_ruleset=A,b&ext_ruleset_prepend=%23c") =
      some (some (.text []), some (chars "A,b")) ∧
    keptRules .inlineRules (chars "http://h/sub?target=clash&url=u&inline_rules=x&inline_rules=y&inline_rules_prepend=z") =
      some (some (.text ['z']), some ['y']) := by
  refine ⟨⟨?_, ?_⟩, ⟨?_, ?_⟩, ?_, ?_⟩ <;> decide

end Claims

end SubConverter.Web
