import SubConverter.Generator.ExternalRules

set_option autoImplicit false

namespace SubConverter.Handler

open Generator

section Parameters

def parseExtRuleset (raw : Text) : List (Text × Text) :=
  (raw.splitOn ';').filterMap fun part =>
    let token := strip isSpace part
    if token = [] ∨ token.head? = some '#' then none
    else
      match cutAt [','] token with
      | none => none
      | some (left, right) =>
        let group := strip isSpace left
        let url := strip isSpace right
        if group = [] ∨ url = [] then none else some (group, url)

def inlineRulesOf (rulesBlob : Text) : List Text :=
  ((rulesBlob.splitOn '|').map (strip isSpace)).filter fun rule => rule ≠ [] && rule.head? ≠ some '#'

def parseInlineRules (raw : Text) : List (Text × List Text) :=
  (raw.splitOn ';').filterMap fun part =>
    let piece := strip isSpace part
    if piece = [] ∨ piece.head? = some '#' then none
    else
      let (header, rulesBlob) := (cutAt [':'] piece).getD (piece, [])
      let group := strip isSpace header
      let rules := inlineRulesOf rulesBlob
      if group = [] ∨ rules = [] then none else some (group, rules)

example : parseInlineRules (chars "#x;A: DOMAIN,a | DOMAIN,b ;B;C:") = [(['A'], [chars "DOMAIN,a", chars "DOMAIN,b"])] := by
  decide

end Parameters

section Fetching

structure FetchedSource where
  status : Int
  content : Text
deriving DecidableEq, Repr

structure Surroundings where
  yaml : Yaml
  fetch : Nat → Text → FetchedSource
  -- In the order of the set.
  validGroups : List Text
  maxAllowedRulesets : Nat

variable (env : Surroundings)

def fetchExternalRuleSources (fieldName : Text) (requireTarget skipOnFetchFailure : Bool) :
    List Text → Nat → Nat → Except Text (List Text)
  | [], _, _ => .ok []
  | source :: rest, number, fetches => do
    let identifier := fieldName ++ chars " source #" ++ decimal (number + 1)
    if !(startsWith (toLower source) (chars "http://") || startsWith (toLower source) (chars "https://")) then
      .error (chars "Invalid external rule source " ++ identifier ++
        chars ": only remote HTTP(S) URLs are supported; local paths and data URLs are not allowed.\n外部规则来源 " ++
        identifier ++ chars " 无效：仅支持远程 HTTP(S) URL，不允许本地路径或 data URL。")
    else
      let answer := env.fetch fetches source
      if answer.status < 200 ∨ 300 ≤ answer.status ∨ answer.content = [] then
        if skipOnFetchFailure then
          fetchExternalRuleSources fieldName requireTarget skipOnFetchFailure rest (number + 1) (fetches + 1)
        else
          .error (chars "Invalid external rule source " ++ identifier ++
            chars ": fetch failed, returned a non-2xx status, or the content was empty.\n外部规则来源 " ++ identifier ++
            chars " 拉取失败、HTTP 状态异常或内容为空。")
      else
        let rules ← parseExternalClashRules env.yaml.load answer.content identifier clashRuleTypes requireTarget
        if rules = [] then
          .error (chars "Invalid external rule source " ++ identifier ++ chars ": no usable rules were found.\n外部规则来源 " ++
            identifier ++ chars " 无效：未找到可用规则。")
        else
          let behind ← fetchExternalRuleSources fieldName requireTarget skipOnFetchFailure rest (number + 1) (fetches + 1)
          return rules ++ behind

end Fetching

section Plan

def describeValidGroups (validGroups : List Text) : Text :=
  let listed := (chars ", ").intercalate (validGroups.take 20)
  if 20 < validGroups.length then
    listed ++ chars " (" ++ decimal (validGroups.length - 20) ++ chars " more, see preset for full list)"
  else listed

def unknownGroup (family group : Text) (validGroups : List Text) : Text :=
  chars "Invalid request: " ++ family ++ chars " references unknown group \x27" ++ group ++
    chars "\x27. The chosen preset defines these groups: " ++ describeValidGroups validGroups ++ chars ".\n无效请求：" ++ family ++
    chars " 引用了不存在的策略组 \x27" ++ group ++ chars "\x27。所选 preset 已定义的策略组：" ++ describeValidGroups validGroups ++
    chars "。"

structure RuleArguments where
  target : Text
  list : Bool := false
  script : Bool := false
  extRuleset : Text := []
  extRulesetPrepend : Text := []
  inlineRules : Text := []
  inlineRulesPrepend : Text := []
deriving DecidableEq, Repr

structure RuleSlots where
  ruleUserPrepend : List Text := []
  ruleAppend : List Text := []
deriving DecidableEq, Repr

variable (env : Surroundings)

def tagged (group rule : Text) : Text := rule ++ ',' :: group

def extRuleLines : List (Text × Text) → Nat → Except Text (List Text)
  | [], _ => .ok []
  | (group, url) :: rest, fetches => do
    let chunk ← fetchExternalRuleSources env (chars "ext_ruleset") false false [url] 0 fetches
    let lines ← extRuleLines rest (fetches + 1)
    return chunk.map (tagged group) ++ lines

def extFamily (family : List (Text × Text)) (fetches : Nat) : Except Text (List Text) :=
  match family.find? fun entry => entry.1 ∉ env.validGroups with
  | some entry => .error (unknownGroup (chars "ext_ruleset") entry.1 env.validGroups)
  | none => extRuleLines env family fetches

def unsupported (family what : Text) (chinese : Text) : Text :=
  chars "Invalid request: " ++ family ++ what ++ chars ".\n无效请求：" ++ family ++ chinese ++ chars "。"

def placeExtRulesets (args : RuleArguments) (slots : RuleSlots) : Except Text RuleSlots :=
  let rulesets := parseExtRuleset args.extRuleset
  let rulesetsPrepend := parseExtRuleset args.extRulesetPrepend
  if rulesets = [] ∧ rulesetsPrepend = [] then .ok slots
  else if args.target ≠ chars "clash" then
    .error (unsupported (chars "ext_ruleset") (chars " is supported only for target=clash") (chars " 仅支持 target=clash"))
  else if args.list then
    .error (unsupported (chars "ext_ruleset") (chars " does not support list=true") (chars " 不支持 list=true"))
  else if args.script then
    .error (unsupported (chars "ext_ruleset") (chars " does not support script=true") (chars " 不支持 script=true"))
  else if env.maxAllowedRulesets ≠ 0 ∧ env.maxAllowedRulesets < rulesets.length + rulesetsPrepend.length then
    .error (chars "Invalid request: ext_ruleset contains more sources than max_allowed_rulesets (" ++
      decimal env.maxAllowedRulesets ++ chars ").\n无效请求：ext_ruleset 来源总数超过 max_allowed_rulesets 限制（" ++
      decimal env.maxAllowedRulesets ++ chars "）。")
  else do
    let prepended ← extFamily env rulesetsPrepend 0
    let appended ← extFamily env rulesets rulesetsPrepend.length
    return ⟨slots.ruleUserPrepend ++ prepended, slots.ruleAppend ++ appended⟩

def inlineIdentifier (group : Text) (number : Nat) : Text :=
  chars "inline_rules section \x27" ++ group ++ chars "\x27 rule #" ++ decimal (number + 1)

def checkInlineRules (group : Text) : List Text → Nat → Except Text Unit
  | [], _ => .ok ()
  | rule :: rest, number => do
    let _ ← parseExternalClashRules env.yaml.load rule (inlineIdentifier group number) clashRuleTypes false
    checkInlineRules group rest (number + 1)

def checkInlineSections : List (Text × List Text) → Except Text Unit
  | [] => .ok ()
  | (group, rules) :: rest =>
    if group ∉ env.validGroups then .error (unknownGroup (chars "inline_rules") group env.validGroups)
    else do
      checkInlineRules env group rules 0
      checkInlineSections rest

def inlineLines (family : List (Text × List Text)) : List Text :=
  family.flatMap fun entry => entry.2.map (tagged entry.1)

def placeInlineRules (args : RuleArguments) (slots : RuleSlots) : Except Text RuleSlots :=
  let rules := parseInlineRules args.inlineRules
  let rulesPrepend := parseInlineRules args.inlineRulesPrepend
  let total := ((rulesPrepend ++ rules).map fun entry => entry.2.length).sum
  if rules = [] ∧ rulesPrepend = [] then .ok slots
  else if args.target ≠ chars "clash" ∧ args.target ≠ chars "clashr" then
    .error (unsupported (chars "inline_rules") (chars " is supported only for target=clash/clashr")
      (chars " 仅支持 target=clash/clashr"))
  else if args.list then
    .error (unsupported (chars "inline_rules") (chars " does not support list=true") (chars " 不支持 list=true"))
  else if args.script then
    .error (unsupported (chars "inline_rules") (chars " does not support script=true") (chars " 不支持 script=true"))
  else if env.maxAllowedRulesets ≠ 0 ∧ env.maxAllowedRulesets < total then
    .error (chars "Invalid request: inline_rules contains more rules than max_allowed_rulesets (" ++
      decimal env.maxAllowedRulesets ++ chars ").\n无效请求：inline_rules 规则总数超过 max_allowed_rulesets 限制（" ++
      decimal env.maxAllowedRulesets ++ chars "）。")
  else do
    checkInlineSections env (rulesPrepend ++ rules)
    return ⟨slots.ruleUserPrepend ++ inlineLines rulesPrepend, slots.ruleAppend ++ inlineLines rules⟩

/-- The part of `buildExternalConfigFetchPlan` that places the rules of the user. -/
def placeUserRules (args : RuleArguments) (slots : RuleSlots) : Except Text RuleSlots := do
  let slots ← placeExtRulesets env args slots
  placeInlineRules env args slots

end Plan

section Sources

structure Source where
  group : Text
  content : Text
  identifier : Text
deriving DecidableEq, Repr

variable (env : Surroundings)

def Source.parsed (source : Source) : Except Text (List Text) :=
  parseExternalClashRules env.yaml.load source.content source.identifier clashRuleTypes false

def Source.rules (source : Source) : List Text := (source.parsed env).toOption.getD []

def Source.entries (source : Source) : List (Text × Text) := (source.rules env).map fun rule => (source.group, rule)

def extSources (family : List (Text × Text)) (fetches : Nat) : List Source :=
  (family.zipIdx fetches).map fun (entry, fetched) =>
    ⟨entry.1, (env.fetch fetched entry.2).content, chars "ext_ruleset source #" ++ decimal 1⟩

def inlineSources (family : List (Text × List Text)) : List Source :=
  family.flatMap fun entry => entry.2.zipIdx.map fun (rule, number) => ⟨entry.1, rule, inlineIdentifier entry.1 number⟩

def extPrependSources (args : RuleArguments) : List Source := extSources env (parseExtRuleset args.extRulesetPrepend) 0

def extAppendSources (args : RuleArguments) : List Source :=
  extSources env (parseExtRuleset args.extRuleset) (parseExtRuleset args.extRulesetPrepend).length

def inlinePrependSources (args : RuleArguments) : List Source := inlineSources (parseInlineRules args.inlineRulesPrepend)

def inlineAppendSources (args : RuleArguments) : List Source := inlineSources (parseInlineRules args.inlineRules)

def Faithful (sources : List Source) (added : List Text) : Prop :=
  List.Forall₂ (fun entry line => Right env.yaml entry.1 entry.2 line) (sources.flatMap (Source.entries env)) added

def Unchanged (args : RuleArguments) (before after : RuleSlots) : Prop :=
  ∃ prepended appended, after = ⟨before.ruleUserPrepend ++ prepended, before.ruleAppend ++ appended⟩ ∧
    Faithful env (extPrependSources env args ++ inlinePrependSources args) prepended ∧
    Faithful env (extAppendSources env args ++ inlineAppendSources args) appended

-- Inline texts are placed as they are written, whatever the parser made of them.
def LiteralRule (source : Source) : Prop :=
  (env.yaml.load source.content).isMap = false ∧ isComment source.content = false ∧
    Completable env.yaml source.group source.content

end Sources

section Lines

variable {env : Surroundings} {args : RuleArguments} {before after : RuleSlots}

theorem Source.rules_eq {source : Source} {rules : List Text} (ok : source.parsed env = .ok rules) : source.rules env = rules := by
  simp [Source.rules, ok, Except.toOption]

theorem fetchExternalRuleSources_single {url : Text} {fetches : Nat} {chunk : List Text}
    (fetched : fetchExternalRuleSources env (chars "ext_ruleset") false false [url] 0 fetches = .ok chunk) (group : Text) :
    Source.parsed env ⟨group, (env.fetch fetches url).content, chars "ext_ruleset source #" ++ decimal 1⟩ = .ok chunk := by
  unfold fetchExternalRuleSources at fetched
  obtain ⟨-, fetched⟩ := guard_eq_ok_iff.mp fetched
  simp only [Bool.false_eq_true, if_false] at fetched
  obtain ⟨-, fetched⟩ := guard_eq_ok_iff.mp fetched
  obtain ⟨rules, parsed, fetched⟩ := bind_eq_ok_iff.mp fetched
  obtain ⟨-, fetched⟩ := guard_eq_ok_iff.mp fetched
  have behind : rules ++ [] = chunk := Except.ok.inj fetched
  rw [List.append_nil] at behind
  exact behind ▸ parsed

theorem extRuleLines_ok {family : List (Text × Text)} {fetches : Nat} {lines : List Text}
    (placed : extRuleLines env family fetches = .ok lines) :
    (∀ source ∈ extSources env family fetches, ∃ rules, source.parsed env = .ok rules) ∧
      lines = ((extSources env family fetches).flatMap (Source.entries env)).map fun entry => tagged entry.1 entry.2 := by
  induction family generalizing fetches lines with
  | nil => simp [extSources, ← Except.ok.inj placed]
  | cons entry rest ih =>
    obtain ⟨group, url⟩ := entry
    obtain ⟨chunk, fetched, placed⟩ := bind_eq_ok_iff.mp placed
    obtain ⟨others, placed, joined⟩ := bind_eq_ok_iff.mp placed
    obtain ⟨ok, rfl⟩ := ih placed
    have first := fetchExternalRuleSources_single fetched group
    have sources : extSources env ((group, url) :: rest) fetches =
        ⟨group, (env.fetch fetches url).content, chars "ext_ruleset source #" ++ decimal 1⟩ :: extSources env rest (fetches + 1) := rfl
    rw [sources]
    refine ⟨List.forall_mem_cons.mpr ⟨⟨chunk, first⟩, ok⟩, ?_⟩
    rw [← Except.ok.inj joined, List.flatMap_cons, List.map_append, Source.entries, Source.rules_eq first, List.map_map]
    rfl

theorem checkInlineRules_ok {group : Text} {rules : List Text} {number : Nat}
    (checked : checkInlineRules env group rules number = .ok ()) :
    ∀ entry ∈ rules.zipIdx number, ∃ rules, Source.parsed env ⟨group, entry.1, inlineIdentifier group entry.2⟩ = .ok rules := by
  induction rules generalizing number with
  | nil => simp
  | cons rule rest ih =>
    obtain ⟨found, parsed, checked⟩ := bind_eq_ok_iff.mp checked
    rw [List.zipIdx_cons]
    exact List.forall_mem_cons.mpr ⟨⟨found, parsed⟩, ih checked⟩

theorem checkInlineSections_ok {family : List (Text × List Text)} (checked : checkInlineSections env family = .ok ()) :
    ∀ source ∈ inlineSources family, ∃ rules, source.parsed env = .ok rules := by
  induction family with
  | nil => simp [inlineSources]
  | cons entry rest ih =>
    obtain ⟨group, rules⟩ := entry
    obtain ⟨-, checked⟩ := guard_eq_ok_iff.mp checked
    obtain ⟨_, here, checked⟩ := bind_eq_ok_iff.mp checked
    intro source there
    rw [inlineSources, List.flatMap_cons] at there
    rcases List.mem_append.mp there with there | there
    · obtain ⟨entry, among, rfl⟩ := List.mem_map.mp there
      exact checkInlineRules_ok here entry among
    · exact ih checked source there

theorem inlineSources_append (first second : List (Text × List Text)) :
    inlineSources (first ++ second) = inlineSources first ++ inlineSources second := by
  simp [inlineSources]

theorem inlineLines_eq (family : List (Text × List Text)) :
    inlineLines family = (inlineSources family).map fun source => tagged source.group source.content := by
  rw [inlineLines, inlineSources, List.map_flatMap]
  congr 1
  funext entry
  rw [List.map_map]
  calc entry.2.map (tagged entry.1)
      = (entry.2.zipIdx.map Prod.fst).map (tagged entry.1) := by rw [List.zipIdx_map_fst]
    _ = _ := by
      rw [List.map_map]
      rfl

theorem group_of_parseExtRuleset {raw : Text} {entry : Text × Text} (there : entry ∈ parseExtRuleset raw) :
    trimAscii entry.1 = entry.1 ∧ entry.1 ≠ [] := by
  obtain ⟨part, -, made⟩ := List.mem_filterMap.mp there
  simp only at made
  split at made
  · cases made
  · split at made
    · cases made
    · rename_i named cut
      split at made
      · cases made
      · rename_i present
        obtain rfl := Option.some.inj made
        exact ⟨strip_strip isSpace _, (not_or.mp present).1⟩

theorem group_of_parseInlineRules {raw : Text} {entry : Text × List Text} (there : entry ∈ parseInlineRules raw) :
    (trimAscii entry.1 = entry.1 ∧ entry.1 ≠ []) ∧ ∀ rule ∈ entry.2, trimAscii rule = rule ∧ rule ≠ [] := by
  obtain ⟨part, -, made⟩ := List.mem_filterMap.mp there
  simp only at made
  split at made
  · cases made
  · split at made
    · cases made
    · rename_i present
      obtain rfl := Option.some.inj made
      refine ⟨⟨strip_strip isSpace _, (not_or.mp present).1⟩, fun rule listed => ?_⟩
      obtain ⟨cut, kept⟩ := List.mem_filter.mp listed
      obtain ⟨text, -, rfl⟩ := List.mem_map.mp cut
      simp only [Bool.and_eq_true, decide_eq_true_eq] at kept
      exact ⟨strip_strip isSpace text, kept.1⟩

theorem extSources_group {raw : Text} {fetches : Nat} {source : Source} (there : source ∈ extSources env (parseExtRuleset raw) fetches) :
    trimAscii source.group = source.group ∧ source.group ≠ [] := by
  obtain ⟨⟨entry, fetched⟩, among, rfl⟩ := List.mem_map.mp there
  exact group_of_parseExtRuleset (List.fst_mem_of_mem_zipIdx among)

theorem inlineSources_texts {raw : Text} {source : Source} (there : source ∈ inlineSources (parseInlineRules raw)) :
    (trimAscii source.group = source.group ∧ source.group ≠ []) ∧ trimAscii source.content = source.content ∧ source.content ≠ [] := by
  obtain ⟨entry, among, there⟩ := List.mem_flatMap.mp there
  obtain ⟨⟨rule, number⟩, listed, rfl⟩ := List.mem_map.mp there
  obtain ⟨group, rules⟩ := group_of_parseInlineRules among
  exact ⟨group, rules rule (List.fst_mem_of_mem_zipIdx listed)⟩

end Lines

section Slots

variable {env : Surroundings}

theorem entry_right_iff {source : Source} {rules : List Text} {rule : Text} (parsed : source.parsed env = .ok rules)
    (there : rule ∈ rules) (group : trimAscii source.group = source.group ∧ source.group ≠ []) :
    Right env.yaml source.group rule (tagged source.group rule) ↔ Completable env.yaml source.group rule := by
  obtain ⟨candidates, kept, accepted, -⟩ := parseExternalClashRules_accepted env.yaml.load parsed
  obtain ⟨⟨candidate, -, same⟩, present, notComment⟩ := mem_keptRules (kept ▸ there)
  have trimmed : trimAscii rule = rule := by
    rw [← same]
    exact strip_strip isSpace candidate.1
  exact right_iff_completable trimmed present notComment (accepted rule there) group.1 group.2

theorem ext_faithful_iff {sources : List Source} (ok : ∀ source ∈ sources, ∃ rules, source.parsed env = .ok rules)
    (groups : ∀ source ∈ sources, trimAscii source.group = source.group ∧ source.group ≠ []) :
    Faithful env sources ((sources.flatMap (Source.entries env)).map fun entry => tagged entry.1 entry.2) ↔
      ∀ source ∈ sources, ∀ rule ∈ source.rules env, Completable env.yaml source.group rule := by
  rw [Faithful, List.forall₂_map_right_iff, List.forall₂_same]
  constructor
  · intro right source there rule among
    obtain ⟨rules, parsed⟩ := ok source there
    have listed : rule ∈ rules := Source.rules_eq parsed ▸ among
    apply (entry_right_iff parsed listed (groups source there)).mp
    exact right _ (List.mem_flatMap.mpr ⟨source, there, List.mem_map_of_mem among⟩)
  · intro completable entry listed
    obtain ⟨source, there, listed⟩ := List.mem_flatMap.mp listed
    obtain ⟨rule, among, rfl⟩ := List.mem_map.mp listed
    obtain ⟨rules, parsed⟩ := ok source there
    have listed : rule ∈ rules := Source.rules_eq parsed ▸ among
    exact (entry_right_iff parsed listed (groups source there)).mpr (completable source there rule among)

theorem rules_of_line {source : Source} (ok : ∃ rules, source.parsed env = .ok rules) (plain : (env.yaml.load source.content).isMap = false)
    (trimmed : trimAscii source.content = source.content) (present : source.content ≠ []) (single : '\n' ∉ source.content)
    (rule : isComment source.content = false) : source.rules env = [source.content] := by
  obtain ⟨rules, parsed⟩ := ok
  obtain ⟨-, kept, -⟩ := (parseExternalClashRules_lines env.yaml.load plain).mp parsed
  rw [Source.rules_eq parsed, kept, keptRules_line trimmed present single rule]

theorem exists_right {entries : List (Text × Text)} {lines : List Text} {line : Text}
    (right : List.Forall₂ (fun entry line => Right env.yaml entry.1 entry.2 line) entries lines) (there : line ∈ lines) :
    ∃ entry : Text × Text, Right env.yaml entry.1 entry.2 line := by
  induction right with
  | nil => cases there
  | @cons entry first _ _ here _ ih =>
    rcases List.mem_cons.mp there with rfl | there
    · exact ⟨entry, here⟩
    · exact ih there

theorem isComment_of_append {rule tail : Text} (notComment : isComment (rule ++ tail) = false) : isComment rule = false := by
  simp only [isComment, startsWith, Bool.or_eq_false_iff] at notComment ⊢
  have shorter : ∀ {mark : Text}, mark.isPrefixOf (rule ++ tail) = false → mark.isPrefixOf rule = false := by
    intro mark absent
    by_contra begins
    rw [Bool.not_eq_false, List.isPrefixOf_iff_prefix] at begins
    rw [List.isPrefixOf_iff_prefix.mpr (begins.trans (List.prefix_append rule tail))] at absent
    cases absent
  exact ⟨⟨shorter notComment.1.1, shorter notComment.1.2⟩, shorter notComment.2⟩

theorem inline_faithful_iff {sources : List Source} (ok : ∀ source ∈ sources, ∃ rules, source.parsed env = .ok rules)
    (texts : ∀ source ∈ sources, (trimAscii source.group = source.group ∧ source.group ≠ []) ∧
      trimAscii source.content = source.content ∧ source.content ≠ []) :
    (Faithful env sources (sources.map fun source => tagged source.group source.content) ∧
      ∀ source ∈ sources, (env.yaml.load source.content).isMap = false) ↔ ∀ source ∈ sources, LiteralRule env source := by
  have entries : (∀ source ∈ sources, source.rules env = [source.content]) →
      sources.flatMap (Source.entries env) = sources.map fun source => (source.group, source.content) := by
    intro alone
    rw [List.map_eq_flatMap]
    apply List.flatMap_congr
    intro source there
    rw [Source.entries, alone source there]
    rfl
  have lines : (∀ source ∈ sources, source.rules env = [source.content]) →
      (Faithful env sources (sources.map fun source => tagged source.group source.content) ↔
        ∀ source ∈ sources, Completable env.yaml source.group source.content) := by
    intro alone
    rw [Faithful, entries alone, List.forall₂_map_left_iff, List.forall₂_map_right_iff, List.forall₂_same]
    apply forall₂_congr
    intro source there
    obtain ⟨rules, parsed⟩ := ok source there
    have listed : source.content ∈ rules := by
      rw [← Source.rules_eq parsed, alone source there]
      exact List.mem_singleton_self source.content
    exact entry_right_iff parsed listed (texts source there).1
  constructor
  · rintro ⟨right, plain⟩
    have single : ∀ source ∈ sources, '\n' ∉ source.content ∧ isComment source.content = false := by
      intro source there
      obtain ⟨⟨trimmedGroup, named⟩, trimmed, present⟩ := texts source there
      obtain ⟨entry, here⟩ := exists_right right (List.mem_map_of_mem there)
      have completed := trimAscii_append trimmed present trimmedGroup named
      obtain ⟨-, oneLine, -, notComment, -⟩ := (parse_line_iff completed).mp (here.accepted [])
      exact ⟨fun inside => oneLine (List.mem_append_left _ inside), isComment_of_append notComment⟩
    have alone : ∀ source ∈ sources, source.rules env = [source.content] := by
      intro source there
      obtain ⟨-, trimmed, present⟩ := texts source there
      exact rules_of_line (ok source there) (plain source there) trimmed present (single source there).1 (single source there).2
    intro source there
    exact ⟨plain source there, (single source there).2, (lines alone).mp right source there⟩
  · intro literal
    have alone : ∀ source ∈ sources, source.rules env = [source.content] := by
      intro source there
      obtain ⟨-, trimmed, present⟩ := texts source there
      obtain ⟨plain, rule, completable⟩ := literal source there
      exact rules_of_line (ok source there) plain trimmed present completable.oneLine.1 rule
    exact ⟨(lines alone).mpr fun source there => (literal source there).2.2, fun source there => (literal source there).1⟩

theorem slot_faithful_iff {ext inline : List Source} (extOk : ∀ source ∈ ext, ∃ rules, source.parsed env = .ok rules)
    (groups : ∀ source ∈ ext, trimAscii source.group = source.group ∧ source.group ≠ [])
    (inlineOk : ∀ source ∈ inline, ∃ rules, source.parsed env = .ok rules)
    (texts : ∀ source ∈ inline, (trimAscii source.group = source.group ∧ source.group ≠ []) ∧
      trimAscii source.content = source.content ∧ source.content ≠ []) :
    (Faithful env (ext ++ inline) (((ext.flatMap (Source.entries env)).map fun entry => tagged entry.1 entry.2) ++
        inline.map fun source => tagged source.group source.content) ∧
      ∀ source ∈ inline, (env.yaml.load source.content).isMap = false) ↔
      (∀ source ∈ ext, ∀ rule ∈ source.rules env, Completable env.yaml source.group rule) ∧
        ∀ source ∈ inline, LiteralRule env source := by
  rw [← ext_faithful_iff extOk groups, ← inline_faithful_iff inlineOk texts, ← and_assoc]
  apply and_congr_left'
  simp only [Faithful, List.flatMap_append]
  constructor
  · intro right
    have first := List.forall₂_take_append _ _ _ right
    have second := List.forall₂_drop_append _ _ _ right
    rw [List.length_map, List.take_left] at first
    rw [List.length_map, List.drop_left] at second
    exact ⟨first, second⟩
  · rintro ⟨first, second⟩
    exact List.rel_append first second

end Slots

section Results

variable {env : Surroundings} {args : RuleArguments} {before between after : RuleSlots}

theorem extFamily_ok {family : List (Text × Text)} {fetches : Nat} {lines : List Text}
    (placed : extFamily env family fetches = .ok lines) : extRuleLines env family fetches = .ok lines := by
  unfold extFamily at placed
  split at placed
  · cases placed
  · exact placed

theorem placeExtRulesets_ok (placed : placeExtRulesets env args before = .ok between) :
    ∃ prepended appended, extRuleLines env (parseExtRuleset args.extRulesetPrepend) 0 = .ok prepended ∧
      extRuleLines env (parseExtRuleset args.extRuleset) (parseExtRuleset args.extRulesetPrepend).length = .ok appended ∧
      between = ⟨before.ruleUserPrepend ++ prepended, before.ruleAppend ++ appended⟩ := by
  unfold placeExtRulesets at placed
  by_cases none : parseExtRuleset args.extRuleset = [] ∧ parseExtRuleset args.extRulesetPrepend = []
  · simp only [none, and_self, if_true, Except.ok.injEq] at placed
    exact ⟨[], [], by rw [none.2]; rfl, by rw [none.1]; rfl, by simp [← placed]⟩
  · simp only [none, if_false, guard_eq_ok_iff] at placed
    obtain ⟨-, -, -, -, placed⟩ := placed
    obtain ⟨prepended, first, placed⟩ := bind_eq_ok_iff.mp placed
    obtain ⟨appended, second, placed⟩ := bind_eq_ok_iff.mp placed
    exact ⟨prepended, appended, extFamily_ok first, extFamily_ok second, (Except.ok.inj placed).symm⟩

theorem placeInlineRules_ok (placed : placeInlineRules env args between = .ok after) :
    checkInlineSections env (parseInlineRules args.inlineRulesPrepend ++ parseInlineRules args.inlineRules) = .ok () ∧
      after = ⟨between.ruleUserPrepend ++ inlineLines (parseInlineRules args.inlineRulesPrepend),
        between.ruleAppend ++ inlineLines (parseInlineRules args.inlineRules)⟩ := by
  unfold placeInlineRules at placed
  by_cases none : parseInlineRules args.inlineRules = [] ∧ parseInlineRules args.inlineRulesPrepend = []
  · simp only [none, and_self, if_true, Except.ok.injEq] at placed
    simp [none, checkInlineSections, inlineLines, ← placed]
  · simp only [none, if_false, guard_eq_ok_iff] at placed
    obtain ⟨-, -, -, -, placed⟩ := placed
    obtain ⟨_, checked, placed⟩ := bind_eq_ok_iff.mp placed
    exact ⟨checked, (Except.ok.inj placed).symm⟩

theorem user_rules_unchanged_iff (accepted : placeUserRules env args before = .ok after) :
    (Unchanged env args before after ∧
        ∀ source ∈ inlinePrependSources args ++ inlineAppendSources args, (env.yaml.load source.content).isMap = false) ↔
      (∀ source ∈ extPrependSources env args ++ extAppendSources env args, ∀ rule ∈ source.rules env,
          Completable env.yaml source.group rule) ∧
        ∀ source ∈ inlinePrependSources args ++ inlineAppendSources args, LiteralRule env source := by
  obtain ⟨between, ext, inline⟩ := bind_eq_ok_iff.mp accepted
  obtain ⟨prepended, appended, first, second, rfl⟩ := placeExtRulesets_ok ext
  obtain ⟨checked, rfl⟩ := placeInlineRules_ok inline
  obtain ⟨prependOk, rfl⟩ := extRuleLines_ok first
  obtain ⟨appendOk, rfl⟩ := extRuleLines_ok second
  have inlineOk := checkInlineSections_ok checked
  rw [inlineSources_append] at inlineOk
  have prependSlot := slot_faithful_iff prependOk (fun _ => extSources_group)
    (fun source there => inlineOk source (List.mem_append_left _ there)) fun _ => inlineSources_texts
  have appendSlot := slot_faithful_iff appendOk (fun _ => extSources_group)
    (fun source there => inlineOk source (List.mem_append_right _ there)) fun _ => inlineSources_texts
  rw [← inlineLines_eq] at prependSlot appendSlot
  simp only [List.forall_mem_append]
  constructor
  · rintro ⟨⟨prependLines, appendLines, same, prependRight, appendRight⟩, prependPlain, appendPlain⟩
    simp only [RuleSlots.mk.injEq, List.append_assoc, List.append_cancel_left_eq] at same
    obtain ⟨rfl, rfl⟩ := same
    obtain ⟨prependExt, prependInline⟩ := prependSlot.mp ⟨prependRight, prependPlain⟩
    obtain ⟨appendExt, appendInline⟩ := appendSlot.mp ⟨appendRight, appendPlain⟩
    exact ⟨⟨prependExt, appendExt⟩, prependInline, appendInline⟩
  · rintro ⟨⟨prependExt, appendExt⟩, prependInline, appendInline⟩
    obtain ⟨prependRight, prependPlain⟩ := prependSlot.mpr ⟨prependExt, prependInline⟩
    obtain ⟨appendRight, appendPlain⟩ := appendSlot.mpr ⟨appendExt, appendInline⟩
    refine ⟨⟨_, _, ?_, prependRight, appendRight⟩, prependPlain, appendPlain⟩
    rw [List.append_assoc, List.append_assoc]

def scalarYaml : Yaml where
  load _ := .other
  within read := by cases read

def groupG : Surroundings where
  yaml := scalarYaml
  fetch _ _ := ⟨0, []⟩
  validGroups := [['G']]
  maxAllowedRulesets := 0

def inlineArguments (text : String) : RuleArguments := { target := chars "clash", inlineRules := chars "G:" ++ chars text }

theorem user_rules_unchanged_domain :
    (Unchanged groupG (inlineArguments "DOMAIN,a") {} ⟨[], [chars "DOMAIN,a,G"]⟩ ∧
        ∀ source ∈ inlinePrependSources (inlineArguments "DOMAIN,a") ++ inlineAppendSources (inlineArguments "DOMAIN,a"),
          (groupG.yaml.load source.content).isMap = false) ↔
      (∀ source ∈ extPrependSources groupG (inlineArguments "DOMAIN,a") ++ extAppendSources groupG (inlineArguments "DOMAIN,a"),
          ∀ rule ∈ source.rules groupG, Completable groupG.yaml source.group rule) ∧
        ∀ source ∈ inlinePrependSources (inlineArguments "DOMAIN,a") ++ inlineAppendSources (inlineArguments "DOMAIN,a"),
          LiteralRule groupG source :=
  user_rules_unchanged_iff (by decide)

theorem user_rules_changed :
    placeUserRules groupG (inlineArguments "IP-CIDR,10.0.0.0/8,no-resolve") {} =
        .ok ⟨[], [chars "IP-CIDR,10.0.0.0/8,no-resolve,G"]⟩ ∧
      ¬Unchanged groupG (inlineArguments "IP-CIDR,10.0.0.0/8,no-resolve") {} ⟨[], [chars "IP-CIDR,10.0.0.0/8,no-resolve,G"]⟩ := by
  refine ⟨by decide, ?_⟩
  rintro ⟨prepended, appended, same, -, right⟩
  obtain rfl : appended = [chars "IP-CIDR,10.0.0.0/8,no-resolve,G"] := (congrArg RuleSlots.ruleAppend same).symm
  have due : (extAppendSources groupG (inlineArguments "IP-CIDR,10.0.0.0/8,no-resolve") ++
      inlineAppendSources (inlineArguments "IP-CIDR,10.0.0.0/8,no-resolve")).flatMap (Source.entries groupG) =
        [(['G'], chars "IP-CIDR,10.0.0.0/8,no-resolve")] := by
    decide
  rw [Faithful, due, List.forall₂_cons] at right
  obtain ⟨parts, -, cut, -, -, third⟩ := right.1.fields
  have found : splitTopLevelCommas (chars "IP-CIDR,10.0.0.0/8,no-resolve,G") =
      some [chars "IP-CIDR", chars "10.0.0.0/8", chars "no-resolve", ['G']] := by
    decide
  obtain rfl := Option.some.inj (found.symm.trans cut)
  exact absurd third (by decide)

end Results

end SubConverter.Handler
