import Mathlib
import SubConverter.Generator.StashReferences
import SubConverter.Generator.StashRules

set_option autoImplicit false

namespace SubConverter.Generator

open Handler (trimWhitespace split toLower toUpper trim numbered toLower_numbered numbered_inj)

section InPlace

variable (regexes : Regexes) (maxAllowedRules : Nat)

/-- `rulesetToStash` on the base node itself: what is written before a failure stays written. -/
def rulesetToStashIn (sources : List RulesetSource) (overwriteOriginalRules : Bool) :
    ExceptT StashFailure (StateM Entries) StashRuleConversionStats := do
  let baseRule ← get
  let stats : StashRuleConversionStats := { inputSources := sources.length }
  let original := if overwriteOriginalRules then [] else ((definedField baseRule (chars "rules")).bind YamlNode.items?).getD []
  match splitBaseRules original false with
  | none =>
    liftExcept (failStash stats "the selected Stash base contains a non-scalar rule" "所选 Stash 基础模板包含非标量规则")
  | some (rules, terminalRules) =>
    -- A copy, to which the generated providers are added.
    let providers := ((definedField baseRule (chars "rule-providers")).bind YamlNode.entries?).getD []
    if maxAllowedRules ≠ 0 ∧ maxAllowedRules < rules.length + terminalRules.length then
      liftExcept (failStash stats "the selected Stash base exceeds max_allowed_rules" "所选 Stash 基础模板超过 max_allowed_rules 限制")
    else if !isNullOrMap (definedField baseRule (chars "rule-providers")) then
      liftExcept (failStash stats "the selected Stash base has an invalid rule-providers field"
        "所选 Stash 基础模板的 rule-providers 字段无效")
    else do
      let s ← liftExcept
        (checkRuleProviders providers { rules := rules, terminalRules := terminalRules, providers := providers, stats := stats })
      let s ← liftExcept (addSources regexes maxAllowedRules sources s)
      modify (setField (chars "rules") (.sequence (s.rules ++ s.terminalRules)))
      modify (setField (chars "rule-providers") (.map s.providers))
      return { s.stats with finalProviderCount := s.providers.length }

variable {regexes : Regexes} {maxAllowedRules : Nat}

theorem run_liftExcept {α : Type} (result : Except StashFailure α) (baseRule : Entries) :
    (liftExcept result : ExceptT StashFailure (StateM Entries) α).run.run baseRule = (result, baseRule) := by
  cases result <;> rfl

theorem run_bind_liftExcept {α β : Type} (result : Except StashFailure α) (next : α → ExceptT StashFailure (StateM Entries) β)
    (baseRule : Entries) : (liftExcept result >>= next).run.run baseRule =
      match result with
      | .error failure => (.error failure, baseRule)
      | .ok value => (next value).run.run baseRule := by
  cases result <;> rfl

theorem run_bind_get {α : Type} (next : Entries → ExceptT StashFailure (StateM Entries) α) (baseRule : Entries) :
    (get >>= next).run.run baseRule = (next baseRule).run.run baseRule := rfl

theorem rulesetToStashIn_eq (sources : List RulesetSource) (overwriteOriginalRules : Bool) (baseRule : Entries) :
    (rulesetToStashIn regexes maxAllowedRules sources overwriteOriginalRules).run.run baseRule =
      match rulesetToStash regexes maxAllowedRules baseRule sources overwriteOriginalRules with
      | .error failure => (.error failure, baseRule)
      | .ok done => (.ok done.stats, done.root) := by
  unfold rulesetToStashIn rulesetToStash
  rw [run_bind_get]
  dsimp only
  generalize splitBaseRules _ false = parts
  cases parts with
  | none => rw [run_liftExcept]; rfl
  | some parts =>
    obtain ⟨rules, terminalRules⟩ := parts
    dsimp only
    split
    · rw [run_liftExcept]; rfl
    split
    · rw [run_liftExcept]; rfl
    generalize checkRuleProviders _ _ = checked
    rw [run_bind_liftExcept]
    cases checked with
    | error failure => rfl
    | ok s =>
      dsimp only
      rw [run_bind_liftExcept]
      generalize added : addSources regexes maxAllowedRules sources s = result
      cases result with
      | error failure =>
        have failed : addSources regexes maxAllowedRules sources s = .error failure := added
        simp only [bind, Except.bind, failed]
      | ok last =>
        have ended : addSources regexes maxAllowedRules sources s = .ok last := added
        simp only [bind, Except.bind, ended]
        rfl

end InPlace

section References

def namedRuleSet (rule : Text) : Option Text :=
  if ruleType (split rule ',') = chars "RULE-SET" then ((split rule ',')[1]?).map trim else none

-- What a name that stands in a rule is made of.
def isStemChar (c : Char) : Bool := c.isAlphanum || c = '-' || c = '_'

theorem stemStep_chars {stem : Text × Bool} (clean : ∀ c ∈ stem.1, isStemChar c) (c : Char) :
    ∀ other ∈ (stemStep stem c).1, isStemChar other := by
  unfold stemStep
  split
  · exact clean
  split
  next fits =>
    intro other there
    rcases List.mem_append.mp there with before | here
    · exact clean other before
    · rw [List.mem_singleton.mp here]
      simpa [isStemChar, or_assoc] using fits
  split
  · intro other there
    rcases List.mem_append.mp there with before | here
    · exact clean other before
    · rw [List.mem_singleton.mp here]
      decide
  · exact clean

theorem foldl_stemStep_chars (name : Text) {stem : Text × Bool} (clean : ∀ c ∈ stem.1, isStemChar c) :
    ∀ c ∈ (name.foldl stemStep stem).1, isStemChar c := by
  induction name generalizing stem with
  | nil => exact clean
  | cons c rest ih => exact ih (stemStep_chars clean c)

theorem stashRulesetStem_chars (url : Text) : ∀ c ∈ stashRulesetStem url, isStemChar c := by
  unfold stashRulesetStem
  dsimp only
  split
  · exact List.all_eq_true.mp (by decide)
  · intro c there
    have empty : ∀ c ∈ (([], false) : Text × Bool).1, isStemChar c := fun _ none => absurd none List.not_mem_nil
    apply foldl_stemStep_chars _ empty c
    have inside := List.mem_reverse.mp there
    exact List.mem_reverse.mp ((List.dropWhile_suffix _).subset inside)

theorem stemCandidate_chars (url : Text) (number : Nat) : ∀ c ∈ stemCandidate (stashRulesetStem url) number, isStemChar c := by
  have stem := stashRulesetStem_chars url
  unfold stemCandidate
  split
  · exact stem
  · intro c there
    rcases List.mem_append.mp there with before | behind
    · exact stem c before
    · rcases List.mem_cons.mp behind with rfl | digit
      · decide
      · have isDigit : c.isDigit := Nat.isDigit_of_mem_toDigits (by decide) (by decide) digit
        simp [isStemChar, Char.isAlphanum, isDigit]

theorem namedRuleSet_built {name : Text} (clean : ∀ c ∈ name, isStemChar c) (group : Text) (type : RulesetType)
    (options : RulesetOptions) : namedRuleSet (buildClashRuleSetReference name group type options) = some name := by
  have plain : ',' ∉ name := fun there => absurd (clean ',' there) (by decide)
  have solid : ' ' ∉ name := fun there => absurd (clean ' ' there) (by decide)
  have written : ∃ rest, buildClashRuleSetReference name group type options = chars "RULE-SET" ++ ',' :: (name ++ ',' :: rest) := by
    refine ⟨group ++ if type = .clashIpCidr ∧ options.noResolve then chars ",no-resolve" else [], ?_⟩
    have kind : chars "RULE-SET," = chars "RULE-SET" ++ [','] := by decide
    rw [buildClashRuleSetReference, kind]
    simp only [List.append_assoc, List.cons_append, List.nil_append]
  obtain ⟨rest, whole⟩ := written
  have parts : split (buildClashRuleSetReference name group type options) ',' = chars "RULE-SET" :: name :: split rest ',' := by
    rw [whole, split_append_cons (by decide), split_append_cons plain]
  have kind : ruleType (chars "RULE-SET" :: name :: split rest ',') = chars "RULE-SET" := by
    simp only [ruleType, List.headD_cons]
    decide
  simp [namedRuleSet, parts, kind, trim_of_no_blank solid]

theorem ruleType_cons {type : Text} (plain : ',' ∉ type) (rest : Text) : ruleType (split (type ++ ',' :: rest) ',') = toUpper (trim type) := by
  rw [split_append_cons plain, ruleType, List.headD_cons]

theorem namedRuleSet_normalized {rule group normalized : Text} {options : RulesetOptions}
    (read : normalizeStashRule rule group options = some normalized) : namedRuleSet normalized = none := by
  have written : ∃ type rest, normalized = type ++ ',' :: rest ∧ type ∈ stashRuleTypes := by
    unfold normalizeStashRule at read
    dsimp only at read
    split at read
    next => cases read
    split at read
    next => cases read
    next first fields _ =>
      split at read
      next => cases read
      next known =>
        split at read
        next => cases read
        split at read
        next => cases read
        split at read
        next => cases read
        next options _ =>
          split at read
          next => cases read
          obtain rfl := Option.some.inj read
          split
          next =>
            have kind : chars "MATCH," = chars "MATCH" ++ [','] := by decide
            exact ⟨chars "MATCH", _, by rw [kind]; simp only [List.append_assoc, List.cons_append, List.nil_append]; rfl, by decide⟩
          next => exact ⟨toUpper first, _, by simp only [List.append_assoc, List.cons_append]; rfl, not_not.mp known⟩
  obtain ⟨type, rest, rfl, known⟩ := written
  have plain : ∀ type ∈ stashRuleTypes, ',' ∉ type ∧ toUpper (trim type) ≠ chars "RULE-SET" := by decide
  rw [namedRuleSet, ruleType_cons (plain type known).1, if_neg (plain type known).2]

end References

section Apart

def lowerText (node : YamlNode) : Option Text := node.text?.map toLower

def providerPath (provider : YamlNode × YamlNode) : Option YamlNode := provider.2.field? (chars "path")

structure StashState.Apart (s : StashState) : Prop where
  names : s.providers.map (fun provider => lowerText provider.1) = s.providerNames.reverse.map some
  paths : (s.providers.filterMap providerPath).map lowerText = s.providerPaths.reverse.map some
  namesApart : s.providerNames.Nodup
  pathsApart : s.providerPaths.Nodup

variable {regexes : Regexes} {maxAllowedRules : Nat} {s middle next : StashState} {source : RulesetSource}

theorem checkRuleProviders_spec {providers : Entries} (ran : checkRuleProviders providers s = .ok next) :
    ∃ names paths : List Text, next = { s with providerNames := names.reverse ++ s.providerNames, providerPaths := paths.reverse ++ s.providerPaths } ∧
      providers.map (fun provider => lowerText provider.1) = names.map some ∧
      (providers.filterMap providerPath).map lowerText = paths.map some ∧
      (s.providerNames.Nodup → next.providerNames.Nodup) ∧ (s.providerPaths.Nodup → next.providerPaths.Nodup) := by
  induction providers generalizing s with
  | nil =>
    obtain rfl := Except.ok.inj ran
    exact ⟨[], [], rfl, rfl, rfl, id, id⟩
  | cons provider rest ih =>
    obtain ⟨key, value⟩ := provider
    unfold checkRuleProviders failStash at ran
    split at ran
    next name entries named mapped =>
      rw [guard_eq_ok_iff] at ran
      obtain ⟨freshName, ran⟩ := ran
      have called : lowerText key = some (toLower name) := by simp [lowerText, named]
      have path : providerPath (key, value) = field entries (chars "path") := by simp [providerPath, YamlNode.field?, mapped]
      dsimp only at ran
      split at ran
      next missing =>
        obtain ⟨names, paths, rfl, ofNames, ofPaths, namesApart, pathsApart⟩ := ih ran
        refine ⟨toLower name :: names, paths, ?_, ?_, ?_, ?_, pathsApart⟩
        · simp
        · simp [called, ofNames]
        · rw [List.filterMap_cons_none (path.trans missing), ofPaths]
        · exact fun distinct => namesApart (List.nodup_cons.mpr ⟨freshName, distinct⟩)
      next node present =>
        split at ran
        next text written =>
          rw [guard_eq_ok_iff] at ran
          obtain ⟨freshPath, ran⟩ := ran
          obtain ⟨names, paths, rfl, ofNames, ofPaths, namesApart, pathsApart⟩ := ih ran
          refine ⟨toLower name :: names, toLower text :: paths, ?_, ?_, ?_, ?_, ?_⟩
          · simp
          · simp [called, ofNames]
          · rw [List.filterMap_cons_some (path.trans present), List.map_cons, ofPaths, lowerText, written]
            rfl
          · exact fun distinct => namesApart (List.nodup_cons.mpr ⟨freshName, distinct⟩)
          · exact fun distinct => pathsApart (List.nodup_cons.mpr ⟨freshPath, distinct⟩)
        next => cases ran
    next => cases ran

theorem setField_of_absent {key : Text} {entries : Entries} (absent : ∀ entry ∈ entries, entry.1.text? ≠ some key) (value : YamlNode) :
    setField key value entries = entries ++ [(.scalar key, value)] := by
  induction entries with
  | nil => rfl
  | cons entry rest ih =>
    rw [List.forall_mem_cons] at absent
    rw [setField, if_neg absent.1, ih absent.2, List.cons_append]

theorem stemCandidate_injOn (stem : Text) : Set.InjOn (fun number => toLower (stemCandidate stem number)) (Set.Ici 1) := by
  have later : ∀ number, 2 ≤ number → stemCandidate stem number = numbered stem number := by
    intro number behind
    rw [stemCandidate, if_neg (by omega), numbered]
  have first : ∀ number, 2 ≤ number → toLower (stemCandidate stem number) ≠ toLower stem := by
    intro number behind same
    have lengths := congrArg List.length same
    rw [later number behind, toLower_numbered] at lengths
    simp [numbered] at lengths
  intro m least n most same
  simp only [Set.mem_Ici] at least most
  by_cases one : m = 1
  · by_cases two : n = 1
    · omega
    · subst one
      exact absurd same.symm (first n (by omega))
  · by_cases two : n = 1
    · subst two
      exact absurd same (first m (by omega))
    · simp only [later m (by omega), later n (by omega), toLower_numbered] at same
      exact numbered_inj same

theorem providerName_not_mem (stem : Text) (used : List Text) :
    toLower (freshName toLower used (stemCandidate stem) 1) ∉ used :=
  key_freshName_not_mem_of_injOn (stemCandidate_injOn stem)

theorem providerName_chars (url : Text) (used : List Text) :
    ∀ c ∈ freshName toLower used (stemCandidate (stashRulesetStem url)) 1, isStemChar c := by
  obtain ⟨found, same, -⟩ := @firstFree_spec Text Text _ toLower used (stemCandidate (stashRulesetStem url)) used.length 1
  rw [freshName, same]
  exact stemCandidate_chars url found

end Apart

section Extensions

variable {regexes : Regexes} {maxAllowedRules : Nat} {s middle next : StashState} {source : RulesetSource}

def RuleOf (source : RulesetSource) (rule : Text) : Prop :=
  (∃ name, rule = buildClashRuleSetReference name source.ruleGroup source.ruleType source.options) ∨
    ∃ line, normalizeStashRule line source.ruleGroup source.options = some rule

structure StashExtension (s next : StashState) (new : List Text) : Prop where
  apart : next.Apart
  rules : next.rules = s.rules ++ new.map .scalar
  kept : ∀ name item, definedField s.providers name = some item → definedField next.providers name = some item
  references : ∀ rule ∈ new, ∀ name, namedRuleSet rule = some name → ∃ item, definedField next.providers name = some item

theorem StashExtension.none (apart : s.Apart) : StashExtension s s [] where
  apart := apart
  rules := by simp
  kept := fun _ _ found => found
  references := fun _ none => absurd none List.not_mem_nil

theorem StashExtension.trans {first second : List Text} (before : StashExtension s middle first)
    (after : StashExtension middle next second) : StashExtension s next (first ++ second) where
  apart := after.apart
  rules := by rw [after.rules, before.rules, List.map_append, List.append_assoc]
  kept := fun name item found => after.kept name item (before.kept name item found)
  references := by
    intro rule there name named
    rcases List.mem_append.mp there with early | late
    · obtain ⟨item, found⟩ := before.references rule early name named
      exact ⟨item, after.kept name item found⟩
    · exact after.references rule late name named

theorem StashExtension.emit {rule : Text} (apart : s.Apart)
    (reference : ∀ name, namedRuleSet rule = some name → ∃ item, definedField s.providers name = some item) :
    StashExtension s (s.emit rule) [rule] where
  apart := ⟨apart.names, apart.paths, apart.namesApart, apart.pathsApart⟩
  rules := rfl
  kept := fun _ _ found => found
  references := by
    intro other there
    rw [List.mem_singleton.mp there]
    exact reference

theorem stashLines_extension {lines : List Text} {emitted : Bool} {result : StashState × Bool} (apart : s.Apart)
    (ran : stashLines maxAllowedRules source lines s emitted = .ok result) :
    ∃ new, StashExtension s result.1 new ∧ (∀ rule ∈ new, RuleOf source rule) ∧ (result.2 = true → emitted = true ∨ new ≠ []) := by
  induction lines generalizing s emitted with
  | nil =>
    obtain rfl := Except.ok.inj ran
    exact ⟨[], .none apart, fun _ none => absurd none List.not_mem_nil, .inl⟩
  | cons line rest ih =>
    rw [stashLines] at ran
    split at ran
    next => exact ih apart ran
    next =>
      split at ran
      next => cases ran
      next rule normalized =>
        rw [failLimit, failStash, guard_eq_ok_iff] at ran
        have here : StashExtension s (s.emit rule) [rule] := by
          apply StashExtension.emit apart
          intro name named
          rw [namedRuleSet_normalized normalized] at named
          cases named
        obtain ⟨new, after, ofSource, -⟩ := ih here.apart ran.2
        exact ⟨rule :: new, here.trans after, List.forall_mem_cons.mpr ⟨.inr ⟨_, normalized⟩, ofSource⟩,
          fun _ => .inr (List.cons_ne_nil rule new)⟩

theorem path_stashRulesetItem (source : RulesetSource) (contract : StashNativeRulesetContract) (path : Text) :
    (stashRulesetItem source contract path).field? (chars "path") = some (.scalar path) := by
  have apart : chars "behavior" ≠ chars "path" ∧ chars "format" ≠ chars "path" ∧ chars "url" ≠ chars "path" := by decide
  simp [stashRulesetItem, YamlNode.field?, YamlNode.entries?, field, entry, YamlNode.text?, apart]

theorem provide_extension {name path : Text} {item : YamlNode} (apart : s.Apart) (nameFree : toLower name ∉ s.providerNames)
    (pathFree : toLower path ∉ s.providerPaths) (written : item.field? (chars "path") = some (.scalar path)) :
    StashExtension s (s.provide name path item) [] := by
  have absent : ∀ provider ∈ s.providers, provider.1.text? ≠ some name := by
    intro provider there same
    have called : some (toLower name) ∈ s.providerNames.reverse.map some := by
      rw [← apart.names]
      exact List.mem_map.mpr ⟨provider, there, by rw [lowerText, same]; rfl⟩
    exact nameFree (by simpa using called)
  have providers : (s.provide name path item).providers = s.providers ++ [(.scalar name, item)] := setField_of_absent absent item
  constructor
  · constructor
    · rw [providers, List.map_append, apart.names]
      simp [StashState.provide, lowerText, YamlNode.text?]
    · have here : [((YamlNode.scalar name), item)].filterMap providerPath = [.scalar path] := by simp [providerPath, written]
      rw [providers, List.filterMap_append, List.map_append, apart.paths, here]
      simp [StashState.provide, lowerText, YamlNode.text?]
    · exact List.nodup_cons.mpr ⟨nameFree, apart.namesApart⟩
    · exact List.nodup_cons.mpr ⟨pathFree, apart.pathsApart⟩
  · simp [StashState.provide]
  · intro other value found
    have different : other ≠ name := by
      rintro rfl
      obtain ⟨provider, there, -⟩ := Option.map_eq_some_iff.mp found
      have same := List.find?_some there
      exact absent provider (List.mem_of_find?_eq_some there) (by simpa using same)
    exact (definedField_setField_ne different item s.providers).trans found
  · exact fun _ none => absurd none List.not_mem_nil

theorem addProviderSource_extension (apart : s.Apart) (added : addProviderSource source s = .ok next) :
    ∃ new, StashExtension s next new ∧ (∀ rule ∈ new, RuleOf source rule) ∧ new ≠ [] := by
  unfold addProviderSource failStash at added
  split at added
  next contract _ =>
    rw [guard_eq_ok_iff] at added
    obtain ⟨-, added⟩ := added
    dsimp only at added
    rw [guard_eq_ok_iff] at added
    obtain ⟨pathFree, same⟩ := added
    obtain rfl := Except.ok.inj same
    have nameFree := providerName_not_mem (stashRulesetStem source.rulePath) s.providerNames
    have clean := providerName_chars source.rulePath s.providerNames
    generalize freshName toLower s.providerNames (stemCandidate (stashRulesetStem source.rulePath)) 1 = name at nameFree clean pathFree ⊢
    have provided := provide_extension apart nameFree pathFree (path_stashRulesetItem source contract _)
    refine ⟨_, provided.trans (.emit provided.apart ?_), ?_, List.cons_ne_nil _ _⟩
    · intro other named
      rw [namedRuleSet_built clean] at named
      obtain rfl := Option.some.inj named
      exact ⟨_, definedField_setField _ _ _⟩
    · intro rule there
      rw [List.nil_append, List.mem_singleton] at there
      exact .inl ⟨name, there⟩
  next => cases added

theorem addExpandedSource_extension (apart : s.Apart) (added : addExpandedSource regexes maxAllowedRules source s = .ok next) :
    ∃ new, StashExtension s next new ∧ (∀ rule ∈ new, RuleOf source rule) ∧ new ≠ [] := by
  unfold addExpandedSource failStash at added
  rw [guard_eq_ok_iff, guard_eq_ok_iff] at added
  obtain ⟨-, -, added⟩ := added
  dsimp only at added
  split at added
  next => cases added
  next read ran =>
    split at added
    next emitted =>
      obtain rfl := Except.ok.inj added
      have opened : (s.expand source).Apart := ⟨apart.names, apart.paths, apart.namesApart, apart.pathsApart⟩
      obtain ⟨new, after, ofSource, some⟩ := stashLines_extension opened ran
      have before : StashExtension s (s.expand source) [] :=
        ⟨opened, by simp [StashState.expand], fun _ _ found => found, fun _ none => absurd none List.not_mem_nil⟩
      exact ⟨new, before.trans after, ofSource, (some emitted).resolve_left (by decide)⟩
    next => cases added

theorem addSources_extension {sources : List RulesetSource} (apart : s.Apart)
    (ran : addSources regexes maxAllowedRules sources s = .ok next) :
    ∃ parts, StashExtension s next parts.flatten ∧
      List.Forall₂ (fun source part => (∀ rule ∈ part, RuleOf source rule) ∧ part ≠ []) sources parts := by
  induction sources generalizing s with
  | nil =>
    obtain rfl := Except.ok.inj ran
    exact ⟨[], .none apart, .nil⟩
  | cons source rest ih =>
    rw [addSources, failLimit, failStash, guard_eq_ok_iff] at ran
    obtain ⟨-, ran⟩ := ran
    split at ran
    next => cases ran
    next middle added =>
      have grown : ∃ new, StashExtension s middle new ∧ (∀ rule ∈ new, RuleOf source rule) ∧ new ≠ [] := by
        split at added
        next => exact addProviderSource_extension apart added
        next => exact addExpandedSource_extension apart added
      obtain ⟨part, before, ofSource⟩ := grown
      obtain ⟨parts, after, others⟩ := ih before.apart ran
      exact ⟨part :: parts, before.trans after, .cons ofSource others⟩

end Extensions

section Consistency

variable {regexes : Regexes} {maxAllowedRules : Nat} {s next : StashState}

def matchesAlways (rule : YamlNode) : Bool := (rule.text?.map fun text => terminalType (lineType (trimWhitespace text))).getD false

theorem splitBaseRules_spec {entries : List YamlNode} {terminalSeen : Bool} {parts : List YamlNode × List YamlNode}
    (cut : splitBaseRules entries terminalSeen = some parts) : entries = parts.1 ++ parts.2 ∧ (terminalSeen = true → parts.1 = []) ∧
      (∀ rule ∈ parts.1, matchesAlways rule = false) ∧ (terminalSeen = false → ∀ first ∈ parts.2.head?, matchesAlways first = true) := by
  induction entries generalizing terminalSeen parts with
  | nil =>
    obtain rfl := Option.some.inj cut
    simp
  | cons entry rest ih =>
    unfold splitBaseRules at cut
    split at cut
    next => cases cut
    next text written =>
      obtain ⟨others, further, same⟩ := Option.map_eq_some_iff.mp cut
      obtain ⟨whole, behind, plain, first⟩ := ih further
      have kind : matchesAlways entry = terminalType (lineType (trimWhitespace text)) := by rw [matchesAlways, written]; rfl
      split at same
      next seen =>
        subst same
        have nothing := behind seen
        refine ⟨?_, fun _ => nothing, ?_, ?_⟩
        · rw [whole, nothing]
          rfl
        · simp [nothing]
        · intro before rule there
          obtain rfl := Option.some.inj there
          simpa [before, kind] using seen
      next unseen =>
        subst same
        simp only [Bool.or_eq_true, not_or, Bool.not_eq_true] at unseen
        refine ⟨?_, ?_, ?_, ?_⟩
        · rw [whole]
          rfl
        · intro before
          rw [before] at unseen
          cases unseen.1
        · exact List.forall_mem_cons.mpr ⟨kind.trans unseen.2, plain⟩
        · intro _
          exact first (by simp [unseen])

/-- What holds of the rules and the providers that are written: `original` and `baseProviders` are those of the base. -/
structure ConsistentRules (maxAllowedRules : Nat) (original : List YamlNode) (baseProviders : Entries) (sources : List RulesetSource)
    (written : List YamlNode) (providers : Entries) : Prop where
  names : (providers.map fun provider => lowerText provider.1).Nodup
  scalarNames : ∀ provider ∈ providers, (lowerText provider.1).isSome
  paths : ((providers.filterMap providerPath).map lowerText).Nodup
  scalarPaths : ∀ path ∈ providers.filterMap providerPath, (lowerText path).isSome
  references : ∀ rule ∈ written, ∀ text name, rule.text? = some text → namedRuleSet text = some name →
    (∃ item, definedField providers name = some item) ∨ (rule ∈ original ∧ definedField baseProviders name = none)
  order : ∃ rules terminalRules parts, written = rules ++ parts.flatten.map .scalar ++ terminalRules ∧
    original = rules ++ terminalRules ∧ (∀ rule ∈ rules, matchesAlways rule = false) ∧
    (∀ first ∈ terminalRules.head?, matchesAlways first = true) ∧
    List.Forall₂ (fun source part => (∀ rule ∈ part, RuleOf source rule) ∧ part ≠ []) sources parts
  limit : maxAllowedRules ≠ 0 → written.length ≤ maxAllowedRules

def baseRules (baseRule : Entries) (overwriteOriginalRules : Bool) : List YamlNode :=
  if overwriteOriginalRules then [] else ((definedField baseRule (chars "rules")).bind YamlNode.items?).getD []

def baseProviders (baseRule : Entries) : Entries := ((definedField baseRule (chars "rule-providers")).bind YamlNode.entries?).getD []

theorem checkRuleProviders_apart {rules terminalRules : List YamlNode} {providers : Entries} {stats : StashRuleConversionStats}
    (ran : checkRuleProviders providers { rules := rules, terminalRules := terminalRules, providers := providers, stats := stats } = .ok s) :
    s.Apart ∧ s.rules = rules ∧ s.terminalRules = terminalRules ∧ s.providers = providers := by
  obtain ⟨names, paths, rfl, ofNames, ofPaths, namesApart, pathsApart⟩ := checkRuleProviders_spec ran
  refine ⟨⟨?_, ?_, namesApart List.nodup_nil, pathsApart List.nodup_nil⟩, rfl, rfl, rfl⟩
  · simpa using ofNames
  · simpa using ofPaths

theorem rulesetToStash_consistent {baseRule : Entries} {sources : List RulesetSource} {overwriteOriginalRules : Bool} {done : StashRules}
    (ran : rulesetToStash regexes maxAllowedRules baseRule sources overwriteOriginalRules = .ok done) :
    ∃ written providers, definedField done.root (chars "rules") = some (.sequence written) ∧
      definedField done.root (chars "rule-providers") = some (.map providers) ∧
      ConsistentRules maxAllowedRules (baseRules baseRule overwriteOriginalRules) (baseProviders baseRule) sources written providers := by
  obtain ⟨before, behind, new, -, all, -, bounded⟩ := rulesetToStash_rules ran
  unfold rulesetToStash failStash at ran
  dsimp only at ran
  split at ran
  next => cases ran
  next rules terminalRules parts =>
    rw [guard_eq_ok_iff, guard_eq_ok_iff] at ran
    obtain ⟨-, -, ran⟩ := ran
    rw [bind_eq_ok_iff] at ran
    obtain ⟨checked, providers, ran⟩ := ran
    rw [bind_eq_ok_iff] at ran
    obtain ⟨last, added, same⟩ := ran
    obtain rfl := Except.ok.inj same
    obtain ⟨apart, rulesAre, terminalAre, providersAre⟩ := checkRuleProviders_apart providers
    obtain ⟨sourceRules, extension, ofSources⟩ := addSources_extension apart added
    have kept : last.terminalRules = terminalRules := by
      obtain ⟨_, grown⟩ := addSources_growth added
      exact grown.terminalRules.trans terminalAre
    have whole : last.rules ++ last.terminalRules = rules ++ sourceRules.flatten.map .scalar ++ terminalRules := by
      rw [extension.rules, rulesAre, kept]
    have rulesField : ∀ value, definedField (setField (chars "rule-providers") value
        (setField (chars "rules") (.sequence (last.rules ++ last.terminalRules)) baseRule)) (chars "rules") =
          some (.sequence (last.rules ++ last.terminalRules)) := by
      intro value
      rw [definedField_setField_ne (by decide), definedField_setField]
    obtain ⟨original, -, plain, first⟩ := splitBaseRules_spec parts
    have someNames : ∀ node ∈ last.providers.map (fun provider => lowerText provider.1), node.isSome := by
      rw [extension.apart.names]
      simp
    have somePaths : ∀ node ∈ (last.providers.filterMap providerPath).map lowerText, node.isSome := by
      rw [extension.apart.paths]
      simp
    refine ⟨_, _, rulesField _, definedField_setField _ _ _, ?_⟩
    constructor
    case names =>
      rw [extension.apart.names]
      exact (List.nodup_reverse.mpr extension.apart.namesApart).map (Option.some_injective _)
    case scalarNames => exact fun provider there => someNames _ (List.mem_map_of_mem there)
    case paths =>
      rw [extension.apart.paths]
      exact (List.nodup_reverse.mpr extension.apart.pathsApart).map (Option.some_injective _)
    case scalarPaths => exact fun path there => somePaths _ (List.mem_map_of_mem there)
    case references =>
      intro rule there text name written named
      have fromBase : rule ∈ rules ++ terminalRules → (∃ item, definedField last.providers name = some item) ∨
          (rule ∈ rules ++ terminalRules ∧ definedField checked.providers name = none) := by
        intro inside
        cases found : definedField checked.providers name with
        | none => exact .inr ⟨inside, rfl⟩
        | some item => exact .inl ⟨item, extension.kept name item found⟩
      rw [baseRules, original, baseProviders, ← providersAre]
      rw [whole, List.mem_append, List.mem_append] at there
      rcases there with (inFront | generated) | inBack
      · exact fromBase (List.mem_append_left _ inFront)
      · obtain ⟨generatedRule, member, rfl⟩ := List.mem_map.mp generated
        obtain rfl := Option.some.inj written
        exact .inl (extension.references _ member name named)
      · exact fromBase (List.mem_append_right _ inBack)
    case order => exact ⟨rules, terminalRules, sourceRules, whole, original, plain, first rfl, ofSources⟩
    case limit =>
      intro limited
      rw [rulesField] at all
      have same := YamlNode.sequence.inj (Option.some.inj all)
      have room := bounded limited
      rw [same, List.length_append, List.length_append, List.length_map]
      exact room.trans' (by omega)

theorem stash_rules_consistent (regexes : Regexes) (maxAllowedRules : Nat) (sources : List RulesetSource) (overwriteOriginalRules : Bool)
    (baseRule : Entries) :
    match (rulesetToStashIn regexes maxAllowedRules sources overwriteOriginalRules).run.run baseRule with
    | (.error _, after) => after = baseRule
    | (.ok _, after) => ∃ written providers, definedField after (chars "rules") = some (.sequence written) ∧
        definedField after (chars "rule-providers") = some (.map providers) ∧
        ConsistentRules maxAllowedRules (baseRules baseRule overwriteOriginalRules) (baseProviders baseRule) sources written providers := by
  rw [rulesetToStashIn_eq]
  cases ran : rulesetToStash regexes maxAllowedRules baseRule sources overwriteOriginalRules with
  | error failure => rfl
  | ok done => exact rulesetToStash_consistent ran

def danglingRules : List YamlNode := [chars "RULE-SET,none,DIRECT", chars "MATCH,DIRECT", chars "DOMAIN,a.test,DIRECT"].map .scalar

theorem base_rules_kept : ∃ stats after,
    (rulesetToStashIn ⟨fun _ _ => false, fun text _ _ => text⟩ 0 [] false).run.run
        [(.scalar (chars "rules"), .sequence danglingRules)] = (.ok stats, after) ∧
      definedField after (chars "rules") = some (.sequence danglingRules) ∧
      definedField after (chars "rule-providers") = some (.map []) ∧
      namedRuleSet (chars "RULE-SET,none,DIRECT") = some (chars "none") ∧
      danglingRules.map matchesAlways = [false, true, false] :=
  ⟨_, _, rfl, rfl, rfl, by decide, by decide⟩

end Consistency

end SubConverter.Generator
