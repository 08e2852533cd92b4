import SubConverter.Handler.FetchGate
import SubConverter.Generator.SurgeRules

set_option autoImplicit false

namespace SubConverter.Generator

open Handler (trimWhitespace startsWith split getLineBreak toLower toUpper isControl)

section Providers

structure StashNativeRulesetContract where
  behavior : Text
  format : Text
  extension : Text
deriving DecidableEq, Repr

def withoutQuery (url : Text) : Text := url.takeWhile fun c => c ≠ '?' && c ≠ '#'

def lastSegment (path : Text) : Text := (path.reverse.takeWhile (· ≠ '/')).reverse

-- The extension with its dot, and the name in front of it.
def extensionOf (name : Text) : Text :=
  if '.' ∈ name then toLower ('.' :: (name.reverse.takeWhile (· ≠ '.')).reverse) else []

def withoutExtension (name : Text) : Text := if '.' ∈ name then ((name.reverse.dropWhile (· ≠ '.')).drop 1).reverse else name

def stashBehavior : RulesetType → Option Text
  | .clashDomain => some (chars "domain")
  | .clashIpCidr => some (chars "ipcidr")
  | .clashClassical => some (chars "classical")
  | .surge | .quanX => none

def inferStashNativeRulesetContract (ruleset : RulesetSource) : Option StashNativeRulesetContract :=
  if ruleset.delivery ≠ .nativeStashProvider ∨
      (!startsWith ruleset.rulePath (chars "https://") ∧ !startsWith ruleset.rulePath (chars "http://")) then none
  else
    match stashBehavior ruleset.ruleType with
    | none => none
    | some behavior =>
      let explicit := ruleset.stashFormat
      let extension := extensionOf (lastSegment (withoutQuery ruleset.rulePath))
      if explicit = [] ∧ extension = [] then none
      else if explicit = chars "mrs" ∨ (explicit = [] ∧ extension = chars ".mrs") then
        if behavior = chars "classical" then none else some ⟨behavior, chars "mrs", chars ".mrs"⟩
      else if explicit = chars "yaml" ∨ (explicit = [] ∧ (extension = chars ".yaml" ∨ extension = chars ".yml")) then
        some ⟨behavior, chars "yaml", chars ".yaml"⟩
      else if explicit = chars "text" then some ⟨behavior, chars "text", chars ".txt"⟩
      else none

-- Each run of other characters becomes one underscore; the flag tells of one that was written last.
def stemStep (stem : Text × Bool) (c : Char) : Text × Bool :=
  if 48 ≤ stem.1.length then stem
  else if c.isAlphanum ∨ c = '-' ∨ c = '_' then (stem.1 ++ [c], false)
  else if stem.1 ≠ [] ∧ stem.2 = false then (stem.1 ++ ['_'], true)
  else stem

def stashRulesetStem (url : Text) : Text :=
  let safe := ((withoutExtension (lastSegment (withoutQuery url))).foldl stemStep ([], false)).1
  let safe := (safe.reverse.dropWhile (· = '_')).reverse
  if safe = [] then chars "SubConverter_Rule" else safe

def stashRulesetScalarIsSafe (value : Text) : Bool := value ≠ [] && value = trimWhitespace value && !value.any isControl

def stashRulesetGroupIsSafe (value : Text) : Bool := stashRulesetScalarIsSafe value && ',' ∉ value

def buildClashRuleSetReference (providerName group : Text) (type : RulesetType) (options : RulesetOptions) : Text :=
  chars "RULE-SET," ++ providerName ++ ',' :: group ++ if type = .clashIpCidr ∧ options.noResolve then chars ",no-resolve" else []

def stemCandidate (stem : Text) (suffix : Nat) : Text := if suffix < 2 then stem else stem ++ '_' :: decimal suffix

end Providers

section Normalization

def stashRuleTypes : List Text :=
  ["DOMAIN", "DOMAIN-SUFFIX", "DOMAIN-KEYWORD", "DOMAIN-WILDCARD", "DOMAIN-REGEX", "GEOSITE", "IP-CIDR", "IP-CIDR6", "IP-ASN", "GEOIP",
    "PROCESS-NAME", "PROCESS-PATH", "USER-AGENT", "URL-REGEX", "NETWORK", "PROTOCOL", "DST-PORT", "MATCH", "FINAL"].map chars

def supportsNoResolve (type : Text) : Bool := type ∈ ["GEOIP", "IP-CIDR", "IP-CIDR6", "IP-ASN"].map chars

structure StashOptions where
  noResolve : Bool
  explicitNoResolve : Bool := false
  noTrack : Bool := false
deriving DecidableEq, Repr

def readStashOptions (type : Text) : List Text → StashOptions → Option StashOptions
  | [], options => some options
  | field :: rest, options =>
    let option := toLower field
    if option = chars "no-resolve" ∧ supportsNoResolve type ∧ options.explicitNoResolve = false then
      readStashOptions type rest { options with noResolve := true, explicitNoResolve := true }
    else if option = chars "no-track" ∧ options.noTrack = false then readStashOptions type rest { options with noTrack := true }
    else none

def normalizeStashRule (rule group : Text) (options : RulesetOptions) : Option Text :=
  let fields := (split (trimWhitespace rule) ',').map trimWhitespace
  if fields.any fun field => !stashRulesetScalarIsSafe field then none
  else
    match fields with
    | [] => none
    | first :: rest =>
      let type := toUpper first
      if type ∉ stashRuleTypes then none
      else if terminalType type ∧ rest ≠ [] then none
      else if !terminalType type ∧ rest = [] then none
      else
        match readStashOptions type (rest.drop 1) { noResolve := options.noResolve && supportsNoResolve type } with
        | none => none
        | some read =>
          let payload := rest.headD []
          if type = chars "GEOIP" ∧ ¬(payload.length = 2 ∧ payload.all Char.isAlpha) then none
          else
            some ((if terminalType type then chars "MATCH," ++ group else type ++ ',' :: payload ++ ',' :: group) ++
              (if read.noResolve then chars ",no-resolve" else []) ++ if read.noTrack then chars ",no-track" else [])

end Normalization

section Conversion

structure StashRuleConversionStats where
  inputSources : Nat := 0
  inlineSources : Nat := 0
  expandedSources : Nat := 0
  providerizedSources : Nat := 0
  finalProviderCount : Nat := 0
  emittedRules : Nat := 0
  providerReferences : Nat := 0
  unsupportedSources : Nat := 0
deriving DecidableEq, Repr

structure StashFailure where
  error : Text
  stats : StashRuleConversionStats
deriving DecidableEq, Repr

def failStash {α : Type} (stats : StashRuleConversionStats) (english chinese : String) : Except StashFailure α :=
  .error ⟨chars "Invalid request: " ++ chars english ++ chars ".\n无效请求：" ++ chars chinese ++ chars "。",
    { stats with unsupportedSources := stats.unsupportedSources + 1 }⟩

structure StashState where
  rules : List YamlNode := []
  terminalRules : List YamlNode := []
  providers : Entries := []
  -- In lower case.
  providerNames : List Text := []
  providerPaths : List Text := []
  stats : StashRuleConversionStats := {}

def StashState.ruleCount (s : StashState) : Nat := s.rules.length + s.terminalRules.length

def StashState.emit (s : StashState) (rule : Text) : StashState :=
  { s with rules := s.rules ++ [.scalar rule], stats := { s.stats with emittedRules := s.stats.emittedRules + 1 } }

-- From the first rule on that always matches, the rules of the base stay behind the others; nothing where an entry is no scalar.
def splitBaseRules : List YamlNode → Bool → Option (List YamlNode × List YamlNode)
  | [], _ => some ([], [])
  | entry :: rest, terminalSeen =>
    match entry.text? with
    | none => none
    | some text =>
      let seen := terminalSeen || terminalType (lineType (trimWhitespace text))
      (splitBaseRules rest seen).map fun parts => if seen then (parts.1, entry :: parts.2) else (entry :: parts.1, parts.2)

def checkRuleProviders : Entries → StashState → Except StashFailure StashState
  | [], s => .ok s
  | (key, value) :: rest, s =>
    match key.text?, value.entries? with
    | some name, some entries =>
      if toLower name ∈ s.providerNames then
        failStash s.stats "the selected Stash base contains duplicate rule-provider names" "所选 Stash 基础模板包含重复的 rule-provider 名称"
      else
        let s := { s with providerNames := toLower name :: s.providerNames }
        match field entries (chars "path") with
        | none => checkRuleProviders rest s
        | some path =>
          match path.text? with
          | some text =>
            if toLower text ∈ s.providerPaths then
              failStash s.stats "the selected Stash base contains conflicting rule-provider paths"
                "所选 Stash 基础模板包含冲突的 rule-provider 路径"
            else checkRuleProviders rest { s with providerPaths := toLower text :: s.providerPaths }
          | none =>
            failStash s.stats "the selected Stash base contains conflicting rule-provider paths"
              "所选 Stash 基础模板包含冲突的 rule-provider 路径"
    | _, _ => failStash s.stats "the selected Stash base contains an invalid rule-provider" "所选 Stash 基础模板包含无效的 rule-provider"

def stashRulesetItem (source : RulesetSource) (contract : StashNativeRulesetContract) (path : Text) : YamlNode :=
  .map ([entry "behavior" contract.behavior, entry "format" contract.format, entry "url" source.rulePath, entry "path" path] ++
    if 0 < source.updateInterval then [entry "interval" (integer source.updateInterval)] else [])

def StashState.provide (s : StashState) (name path : Text) (item : YamlNode) : StashState :=
  { s with
    providerPaths := toLower path :: s.providerPaths
    providerNames := toLower name :: s.providerNames
    providers := setField name item s.providers
    stats := { s.stats with
      providerizedSources := s.stats.providerizedSources + 1
      providerReferences := s.stats.providerReferences + 1 } }

def addProviderSource (source : RulesetSource) (s : StashState) : Except StashFailure StashState :=
  match inferStashNativeRulesetContract source with
  | some contract =>
    if !stashRulesetScalarIsSafe source.rulePath ∨ !stashRulesetGroupIsSafe source.ruleGroup then
      failStash s.stats "a Stash rule-provider source has an unsupported format or unsafe value"
        "Stash rule-provider 来源的格式不受支持或包含不安全值"
    else
      let name := freshName toLower s.providerNames (stemCandidate (stashRulesetStem source.rulePath)) 1
      let path := chars "./rules/" ++ name ++ contract.extension
      if toLower path ∈ s.providerPaths then
        failStash s.stats "generated Stash rule-provider paths conflict" "生成的 Stash rule-provider 路径发生冲突"
      else
        .ok ((s.provide name path (stashRulesetItem source contract path)).emit
          (buildClashRuleSetReference name source.ruleGroup source.ruleType source.options))
  | none =>
    failStash s.stats "a Stash rule-provider source has an unsupported format or unsafe value"
      "Stash rule-provider 来源的格式不受支持或包含不安全值"

variable (regexes : Regexes) (maxAllowedRules : Nat)

def stashFull (s : StashState) : Bool := maxAllowedRules ≠ 0 && maxAllowedRules ≤ s.ruleCount

def failLimit {α : Type} (stats : StashRuleConversionStats) : Except StashFailure α :=
  failStash stats "the final Stash rule count exceeds max_allowed_rules" "最终 Stash 规则数量超过 max_allowed_rules 限制"

-- The flag tells whether the source has had a rule.
def stashLines (source : RulesetSource) : List Text → StashState → Bool → Except StashFailure (StashState × Bool)
  | [], s, emitted => .ok (s, emitted)
  | line :: rest, s, emitted =>
    let line := trimWhitespace line
    if line = [] ∨ isRuleComment line then stashLines source rest s emitted
    else
      match normalizeStashRule line source.ruleGroup source.options with
      | none =>
        failStash s.stats "a Stash ruleset contains an unsupported or invalid rule" "Stash 规则集包含不受支持或无效的规则"
      | some rule => if stashFull maxAllowedRules s then failLimit s.stats else stashLines source rest (s.emit rule) true

def StashState.expand (s : StashState) (source : RulesetSource) : StashState :=
  { s with stats :=
    if source.rulePath = [] then { s.stats with inlineSources := s.stats.inlineSources + 1 }
    else { s.stats with expandedSources := s.stats.expandedSources + 1 } }

def addExpandedSource (source : RulesetSource) (s : StashState) : Except StashFailure StashState :=
  if !stashRulesetGroupIsSafe source.ruleGroup then
    failStash s.stats "a Stash ruleset policy name contains an unsafe value" "Stash 规则集的策略名称包含不安全值"
  else if source.ruleContent = [] then
    failStash s.stats "a Stash ruleset could not be fetched or was empty" "Stash 规则集获取失败或内容为空"
  else
    let retrieved := if startsWith source.ruleContent ['[', ']'] then source.ruleContent.drop 2
      else convertRuleset regexes source.ruleContent source.ruleType
    match stashLines maxAllowedRules source (split retrieved (getLineBreak retrieved)) (s.expand source) false with
    | .error failure => .error failure
    | .ok (next, emitted) =>
      if emitted then .ok next
      else failStash next.stats "a Stash ruleset did not contain any supported rules" "Stash 规则集不包含任何受支持的规则"

def addSources : List RulesetSource → StashState → Except StashFailure StashState
  | [], s => .ok s
  | source :: rest, s =>
    if stashFull maxAllowedRules s then failLimit s.stats
    else
      match if source.delivery = .nativeStashProvider then addProviderSource source s else addExpandedSource regexes maxAllowedRules source s with
      | .error failure => .error failure
      | .ok next => addSources rest next

def isNullOrMap : Option YamlNode → Bool
  | none | some .null | some (.map _) => true
  | some (.scalar _) | some (.sequence _) => false

structure StashRules where
  root : Entries
  stats : StashRuleConversionStats

def rulesetToStash (root : Entries) (sources : List RulesetSource) (overwriteOriginalRules : Bool) : Except StashFailure StashRules :=
  let stats : StashRuleConversionStats := { inputSources := sources.length }
  let original := if overwriteOriginalRules then [] else ((definedField root (chars "rules")).bind YamlNode.items?).getD []
  match splitBaseRules original false with
  | none => failStash stats "the selected Stash base contains a non-scalar rule" "所选 Stash 基础模板包含非标量规则"
  | some (rules, terminalRules) =>
    let providers := ((definedField root (chars "rule-providers")).bind YamlNode.entries?).getD []
    if maxAllowedRules ≠ 0 ∧ maxAllowedRules < rules.length + terminalRules.length then
      failStash stats "the selected Stash base exceeds max_allowed_rules" "所选 Stash 基础模板超过 max_allowed_rules 限制"
    else if !isNullOrMap (definedField root (chars "rule-providers")) then
      failStash stats "the selected Stash base has an invalid rule-providers field" "所选 Stash 基础模板的 rule-providers 字段无效"
    else do
      let s ← checkRuleProviders providers { rules := rules, terminalRules := terminalRules, providers := providers, stats := stats }
      let s ← addSources regexes maxAllowedRules sources s
      return {
        root := setField (chars "rule-providers") (.map s.providers)
          (setField (chars "rules") (.sequence (s.rules ++ s.terminalRules)) root)
        stats := { s.stats with finalProviderCount := s.providers.length } }

end Conversion

section Growth

theorem definedField_setField_ne {key other : Text} (different : other ≠ key) (value : YamlNode) (entries : Entries) :
    definedField (setField key value entries) other = definedField entries other := by
  induction entries with
  | nil => simp [setField, definedField, YamlNode.text?, Ne.symm different]
  | cons entry rest ih =>
    by_cases here : entry.1.text? = some key
    · have elsewhere : ¬(some key = some other) := by simpa using Ne.symm different
      simp [setField, definedField, here, elsewhere]
    · by_cases there : entry.1.text? = some other
      · simp [setField, definedField, there, different]
      · simpa [setField, definedField, here, there] using ih

variable {regexes : Regexes} {maxAllowedRules : Nat} {s middle next : StashState} {source : RulesetSource}

structure StashGrowth (maxAllowedRules : Nat) (s next : StashState) (new : List Text) : Prop where
  rules : next.rules = s.rules ++ new.map .scalar
  terminalRules : next.terminalRules = s.terminalRules
  emitted : next.stats.emittedRules = s.stats.emittedRules + new.length
  bounded : maxAllowedRules ≠ 0 → s.ruleCount ≤ maxAllowedRules → next.ruleCount ≤ maxAllowedRules

theorem StashGrowth.none (maxAllowedRules : Nat) (rules : next.rules = s.rules) (terminalRules : next.terminalRules = s.terminalRules)
    (emitted : next.stats.emittedRules = s.stats.emittedRules) : StashGrowth maxAllowedRules s next [] where
  rules := by simp [rules]
  terminalRules := terminalRules
  emitted := emitted
  bounded := fun _ room => by simpa [StashState.ruleCount, rules, terminalRules] using room

theorem StashGrowth.trans {first second : List Text} (before : StashGrowth maxAllowedRules s middle first)
    (after : StashGrowth maxAllowedRules middle next second) : StashGrowth maxAllowedRules s next (first ++ second) where
  rules := by rw [after.rules, before.rules, List.map_append, List.append_assoc]
  terminalRules := after.terminalRules.trans before.terminalRules
  emitted := by rw [after.emitted, before.emitted, List.length_append, Nat.add_assoc]
  bounded := fun limited room => after.bounded limited (before.bounded limited room)

theorem StashGrowth.emit (rule : Text) (room : stashFull maxAllowedRules s = false) : StashGrowth maxAllowedRules s (s.emit rule) [rule] where
  rules := rfl
  terminalRules := rfl
  emitted := rfl
  bounded := by
    intro limited _
    have below : s.ruleCount < maxAllowedRules := by simpa [stashFull, limited] using room
    simp only [StashState.ruleCount, StashState.emit, List.length_append, List.length_singleton] at below ⊢
    omega

theorem stashLines_growth {lines : List Text} {emitted : Bool} {result : StashState × Bool}
    (ran : stashLines maxAllowedRules source lines s emitted = .ok result) : ∃ new, StashGrowth maxAllowedRules s result.1 new := by
  induction lines generalizing s emitted with
  | nil =>
    obtain rfl := Except.ok.inj ran
    exact ⟨[], .none _ rfl rfl rfl⟩
  | cons line rest ih =>
    rw [stashLines] at ran
    split at ran
    next => exact ih ran
    next =>
      split at ran
      next => cases ran
      next rule _ =>
        rw [failLimit, failStash, guard_eq_ok_iff] at ran
        obtain ⟨room, ran⟩ := ran
        obtain ⟨new, after⟩ := ih ran
        exact ⟨rule :: new, (StashGrowth.emit rule (by simpa using room)).trans after⟩

theorem addProviderSource_growth (added : addProviderSource source s = .ok next) (room : stashFull maxAllowedRules s = false) :
    ∃ new, StashGrowth maxAllowedRules s next new := by
  unfold addProviderSource failStash at added
  split at added
  next contract _ =>
    rw [guard_eq_ok_iff] at added
    dsimp only at added
    rw [guard_eq_ok_iff] at added
    obtain ⟨-, -, same⟩ := added
    obtain rfl := Except.ok.inj same
    refine ⟨_, StashGrowth.trans (.none _ ?_ ?_ ?_) (.emit _ ?_)⟩
    · rfl
    · rfl
    · rfl
    · exact room
  next => cases added

theorem addExpandedSource_growth (added : addExpandedSource regexes maxAllowedRules source s = .ok next) :
    ∃ new, StashGrowth maxAllowedRules s next new := by
  unfold addExpandedSource failStash at added
  rw [guard_eq_ok_iff, guard_eq_ok_iff] at added
  obtain ⟨-, -, added⟩ := added
  dsimp only at added
  split at added
  next => cases added
  next read ran =>
    split at added
    next =>
      obtain rfl := Except.ok.inj added
      obtain ⟨new, after⟩ := stashLines_growth ran
      have before : StashGrowth maxAllowedRules s (s.expand source) [] := by
        apply StashGrowth.none
        · rfl
        · rfl
        · unfold StashState.expand
          dsimp only
          split <;> rfl
      exact ⟨new, before.trans after⟩
    next => cases added

theorem addSources_growth {sources : List RulesetSource} (ran : addSources regexes maxAllowedRules sources s = .ok next) :
    ∃ new, StashGrowth maxAllowedRules s next new := by
  induction sources generalizing s with
  | nil =>
    obtain rfl := Except.ok.inj ran
    exact ⟨[], .none _ rfl rfl rfl⟩
  | cons source rest ih =>
    rw [addSources, failLimit, failStash, guard_eq_ok_iff] at ran
    obtain ⟨room, ran⟩ := ran
    split at ran
    next => cases ran
    next middle added =>
      obtain ⟨second, after⟩ := ih ran
      have grown : ∃ first, StashGrowth maxAllowedRules s middle first := by
        split at added
        next => exact addProviderSource_growth added (by simpa using room)
        next => exact addExpandedSource_growth added
      obtain ⟨first, before⟩ := grown
      exact ⟨first ++ second, before.trans after⟩

theorem checkRuleProviders_growth {providers : Entries} (ran : checkRuleProviders providers s = .ok next) :
    StashGrowth maxAllowedRules s next [] := by
  induction providers generalizing s with
  | nil =>
    obtain rfl := Except.ok.inj ran
    exact .none _ rfl rfl rfl
  | cons provider rest ih =>
    obtain ⟨key, value⟩ := provider
    unfold checkRuleProviders failStash at ran
    split at ran
    next name entries _ _ =>
      rw [guard_eq_ok_iff] at ran
      obtain ⟨-, ran⟩ := ran
      dsimp only at ran
      split at ran
      next =>
        have named : StashGrowth maxAllowedRules s { s with providerNames := toLower name :: s.providerNames } [] :=
          .none _ rfl rfl rfl
        exact named.trans (ih ran)
      next =>
        split at ran
        next text _ =>
          rw [guard_eq_ok_iff] at ran
          have named : StashGrowth maxAllowedRules s
              { s with providerNames := toLower name :: s.providerNames, providerPaths := toLower text :: s.providerPaths } [] :=
            .none _ rfl rfl rfl
          exact named.trans (ih ran.2)
        next => cases ran
    next => cases ran

theorem rulesetToStash_rules {root : Entries} {sources : List RulesetSource} {overwriteOriginalRules : Bool} {done : StashRules}
    (ran : rulesetToStash regexes maxAllowedRules root sources overwriteOriginalRules = .ok done) :
    ∃ (rules terminalRules : List YamlNode) (new : List Text),
      splitBaseRules (if overwriteOriginalRules then [] else ((definedField root (chars "rules")).bind YamlNode.items?).getD []) false =
        some (rules, terminalRules) ∧
      definedField done.root (chars "rules") = some (.sequence (rules ++ new.map .scalar ++ terminalRules)) ∧
      done.stats.emittedRules = new.length ∧
      (maxAllowedRules ≠ 0 → rules.length + new.length + terminalRules.length ≤ maxAllowedRules) := by
  unfold rulesetToStash failStash at ran
  dsimp only at ran
  split at ran
  next => cases ran
  next rules terminalRules parts =>
    rw [guard_eq_ok_iff, guard_eq_ok_iff] at ran
    obtain ⟨within, -, ran⟩ := ran
    rw [bind_eq_ok_iff] at ran
    obtain ⟨checked, providers, ran⟩ := ran
    rw [bind_eq_ok_iff] at ran
    obtain ⟨last, added, same⟩ := ran
    obtain rfl := Except.ok.inj same
    obtain ⟨new, grown⟩ := addSources_growth added
    have growth := (@checkRuleProviders_growth maxAllowedRules _ _ _ providers).trans grown
    rw [List.nil_append] at growth
    have rulesAre : last.rules = rules ++ new.map .scalar := growth.rules
    have terminalAre : last.terminalRules = terminalRules := growth.terminalRules
    refine ⟨rules, terminalRules, new, parts, ?_, ?_, ?_⟩
    · rw [rulesAre, terminalAre]
      rw [definedField_setField_ne (by decide), definedField_setField]
    · simpa using growth.emitted
    · intro limited
      have room : rules.length + terminalRules.length ≤ maxAllowedRules := by
        by_contra more
        exact within ⟨limited, by omega⟩
      have bounded := growth.bounded limited room
      rw [StashState.ruleCount, rulesAre, terminalAre, List.length_append, List.length_map] at bounded
      exact bounded

end Growth

end SubConverter.Generator
