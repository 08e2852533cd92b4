import SubConverter.Generator.ClashEmitters
import SubConverter.Generator.RuleTargets
import SubConverter.Generator.StashGroups
import SubConverter.Utils.IniCache

set_option autoImplicit false

namespace SubConverter.Generator

open Handler (trimWhitespace startsWith split getLineBreak isLink)
open Utils.IniReader (Members)

section Contents

inductive RulesetDelivery where
  | serverFetched
  | nativeStashProvider
deriving DecidableEq, Repr

structure RulesetSource extends RulesetContent where
  rulePath : Text := []
  rulePathTyped : Text := []
  updateInterval : Int := 0
  stashFormat : Text := []
  delivery : RulesetDelivery := .serverFetched
deriving DecidableEq, Repr

end Contents

section Types

def basicTypes : List Text :=
  ["DOMAIN", "DOMAIN-SUFFIX", "DOMAIN-KEYWORD", "IP-CIDR", "SRC-IP-CIDR", "GEOIP", "MATCH", "FINAL"].map chars

def surge2RuleTypes : List Text :=
  basicTypes ++ ["IP-CIDR6", "USER-AGENT", "URL-REGEX", "PROCESS-NAME", "IN-PORT", "DEST-PORT", "SRC-IP"].map chars

def surgeRuleTypes : List Text :=
  basicTypes ++
    ["IP-CIDR6", "USER-AGENT", "URL-REGEX", "AND", "OR", "NOT", "PROCESS-NAME", "IN-PORT", "DEST-PORT", "SRC-IP"].map chars

def quanXRuleTypes : List Text := basicTypes ++ ["USER-AGENT", "HOST", "HOST-SUFFIX", "HOST-KEYWORD"].map chars

def surfRuleTypes : List Text := basicTypes ++ ["IP-CIDR6", "PROCESS-NAME", "IN-PORT", "DEST-PORT", "SRC-IP"].map chars

def isQuantumult (surgeVer : Int) : Bool := surgeVer = -1 || surgeVer = -2

def surgeVersionTypes (surgeVer : Int) : List Text :=
  if isQuantumult surgeVer then quanXRuleTypes
  else if surgeVer = -3 then surfRuleTypes
  else if 2 < surgeVer then surgeRuleTypes
  else surge2RuleTypes

end Types

section Rules

structure SurgeEnv where
  regexes : Regexes
  maxAllowedRules : Nat
  surgeVer : Int
  remotePathPrefix : Text
  fileExist : Text → Bool
  urlSafeBase64Encode : Text → Text

variable (env : SurgeEnv)

-- Each double comma becomes a single one, and the search goes on behind that.
def withoutDoubleCommas : Text → Text
  | ',' :: ',' :: rest => ',' :: withoutDoubleCommas rest
  | c :: rest => c :: withoutDoubleCommas rest
  | [] => []

def isLogicalRule (line : Text) : Bool :=
  startsWith line (chars "AND") || startsWith line (chars "OR") || startsWith line (chars "NOT")

def surgeTarget (line group : Text) : Option Text :=
  if isQuantumult env.surgeVer then transformRuleToCommon line group true
  else if isLogicalRule line then some line
  else transformRuleToCommon line group false

-- Nothing where the content is shorter than the mark of an inline rule.
def inlineRule (content : RulesetSource) : Option Text :=
  if content.ruleContent.length < 2 then none
  else
    let line := content.ruleContent.drop 2
    (surgeTarget env (if line = chars "MATCH" then chars "FINAL" else line) content.ruleGroup).map withoutDoubleCommas

def isSurgeRule (line : Text) : Bool :=
  let line := trimWhitespace line
  line ≠ [] && !isRuleComment line && !(env.surgeVer = -2 && startsWith line (chars "IP-CIDR6")) &&
    (surgeVersionTypes env.surgeVer).any fun type => startsWith line type

def translatedType (line : Text) : Text :=
  if isQuantumult env.surgeVer && startsWith line (chars "IP-CIDR6") then chars "IP6-CIDR" ++ line.drop 8 else line

def strippedLine (line : Text) : Text := stripRulesetComment (trimWhitespace line) false

def surgeRule (content : RulesetSource) (line : Text) : Option Text :=
  surgeTarget env (translatedType env (strippedLine line)) content.ruleGroup

end Rules

section References

variable (env : SurgeEnv)

inductive Delivery where
  | reference (rule : Text)
  -- A line of another section.
  | remote (name line : Text)
  | left
  | fetched
deriving DecidableEq, Repr

def rulesetLink (type : String) (content : RulesetSource) : Text :=
  env.remotePathPrefix ++ chars "/getruleset?type=" ++ chars type ++ chars "&url=" ++ env.urlSafeBase64Encode content.rulePathTyped

def ruleSetReference (content : RulesetSource) (link : Text) : Text :=
  chars "RULE-SET," ++ link ++ ',' :: content.ruleGroup ++
    if content.updateInterval ≠ 0 then chars ",update-interval=" ++ integer content.updateInterval else []

def filterRemote (content : RulesetSource) : Delivery :=
  .remote (chars "filter_remote") (rulesetLink env "2" content ++ chars "&group=" ++ env.urlSafeBase64Encode content.ruleGroup ++
    chars ", tag=" ++ content.ruleGroup ++ chars ", enabled=true")

def surgeDelivery (content : RulesetSource) : Delivery :=
  if env.surgeVer = -1 ∧ content.ruleType = .quanX ∧ isLink content.rulePath then
    .remote (chars "filter_remote") (content.rulePath ++ chars ", tag=" ++ content.ruleGroup ++ chars ", force-policy=" ++
      content.ruleGroup ++ chars ", enabled=true")
  else if env.fileExist content.rulePath then
    if 2 < env.surgeVer ∧ env.remotePathPrefix ≠ [] then .reference (ruleSetReference content (rulesetLink env "1" content))
    else if env.surgeVer = -1 ∧ env.remotePathPrefix ≠ [] then filterRemote env content
    else if env.surgeVer = -4 ∧ env.remotePathPrefix ≠ [] then
      .remote (chars "Remote Rule") (rulesetLink env "1" content ++ ',' :: content.ruleGroup)
    else .fetched
  else if isLink content.rulePath then
    if 2 < env.surgeVer then
      if content.ruleType ≠ .surge then
        if env.remotePathPrefix ≠ [] then .reference (ruleSetReference content (rulesetLink env "1" content)) else .left
      else .reference (ruleSetReference content content.rulePath)
    else if env.surgeVer = -1 ∧ env.remotePathPrefix ≠ [] then filterRemote env content
    else if env.surgeVer = -4 then .remote (chars "Remote Rule") (content.rulePath ++ ',' :: content.ruleGroup)
    else .fetched
  else .left

end References

section Conversion

variable (env : SurgeEnv)

def noName : Text := chars "\x7bNONAME\x7d"

structure SurgeState where
  baseRule : Members
  allRules : List Text := []
  totalRules : Nat := 0
  -- `local_stats`
  rules : Nat := 0

def SurgeState.full (s : SurgeState) : Bool := env.maxAllowedRules ≠ 0 && env.maxAllowedRules < s.totalRules

def SurgeState.add (s : SurgeState) (rule : Text) : SurgeState :=
  { s with allRules := s.allRules ++ [rule], totalRules := s.totalRules + 1, rules := s.rules + 1 }

-- The rules of a reference are not counted.
def SurgeState.refer (s : SurgeState) (rule : Text) : SurgeState :=
  { s with allRules := s.allRules ++ [rule], rules := s.rules + 1 }

def SurgeState.referRemote (s : SurgeState) (name line : Text) : SurgeState :=
  { s with baseRule := s.baseRule.set name noName line, rules := s.rules + 1 }

def surgeLines (content : RulesetSource) : List Text → SurgeState → Option SurgeState
  | [], s => some s
  | line :: rest, s =>
    if s.full env then some s
    else if isSurgeRule env line then
      match surgeRule env content line with
      | none => none
      | some rule => surgeLines content rest (s.add rule)
    else surgeLines content rest s

def surgeContents : List RulesetSource → SurgeState → Option SurgeState
  | [], s => some s
  | content :: rest, s =>
    if s.full env then some s
    else if content.rulePath = [] then
      match inlineRule env content with
      | none => none
      | some rule => surgeContents rest (s.add rule)
    else
      match surgeDelivery env content with
      | .reference rule => surgeContents rest (s.refer rule)
      | .remote name line => surgeContents rest (s.referRemote name line)
      | .left => surgeContents rest s
      | .fetched =>
        if content.ruleContent = [] then surgeContents rest s
        else (surgeLines env content (convertedLines env.regexes content.toRulesetContent) s).bind (surgeContents rest)

def surgeSection (surgeVer : Int) : Text :=
  if surgeVer = 0 then chars "RoutingRule"
  else if surgeVer = -1 then chars "filter_local"
  else if surgeVer = -2 then chars "TCP"
  else chars "Rule"

def surgeBase (surgeVer : Int) (baseRule : Members) (overwriteOriginalRules : Bool) : Members :=
  let base := { baseRule with currentSection := surgeSection surgeVer }
  if overwriteOriginalRules then
    let erased := base.eraseSection base.currentSection
    if surgeVer = -1 then erased.eraseSection (chars "filter_remote")
    else if surgeVer = -4 then erased.eraseSection (chars "Remote Rule")
    else erased
  else base

def setRules (base : Members) (rules : List Text) : Members :=
  rules.foldl (fun base rule => base.set base.currentSection noName rule) base

def rulesetToSurge (baseRule : Members) (contents : List RulesetSource) (overwriteOriginalRules : Bool) : Option (Members × Nat) :=
  (surgeContents env contents { baseRule := surgeBase env.surgeVer baseRule overwriteOriginalRules }).map fun s =>
    (setRules s.baseRule s.allRules, s.rules)

end Conversion

section Written

inductive Written where
  | inline (rule : Text)
  | reference (rule : Text)
  | remote (name line : Text)
  | copied (line rule : Text)
deriving DecidableEq, Repr

def Written.rule? : Written → Option Text
  | .inline rule | .reference rule | .copied _ rule => some rule
  | .remote _ _ => none

def Written.counts : Written → Bool
  | .inline _ | .copied _ _ => true
  | .reference _ | .remote _ _ => false

def Written.setRemote (base : Members) : Written → Members
  | .remote name line => base.set name noName line
  | _ => base

def copiedLine (env : SurgeEnv) (content : RulesetSource) (line : Text) : List Written :=
  if isSurgeRule env line then ((surgeRule env content line).map (Written.copied line)).toList else []

def surgeWritten (env : SurgeEnv) (content : RulesetSource) : List Written :=
  if content.rulePath = [] then ((inlineRule env content).map Written.inline).toList
  else
    match surgeDelivery env content with
    | .reference rule => [.reference rule]
    | .remote name line => [.remote name line]
    | .left => []
    | .fetched =>
      if content.ruleContent = [] then []
      else (convertedLines env.regexes content.toRulesetContent).flatMap (copiedLine env content)

variable {env : SurgeEnv} {s middle next : SurgeState} {available behind written : List Written}

structure Writes (env : SurgeEnv) (available : List Written) (s next : SurgeState) (written : List Written) : Prop where
  allRules : next.allRules = s.allRules ++ written.filterMap Written.rule?
  baseRule : next.baseRule = written.foldl Written.setRemote s.baseRule
  totalRules : next.totalRules = s.totalRules + written.countP Written.counts
  rules : next.rules = s.rules + written.length
  first : written <+: available
  complete : written = available ∨ next.full env

theorem Writes.nil (env : SurgeEnv) (s : SurgeState) : Writes env [] s s [] where
  allRules := by simp
  baseRule := rfl
  totalRules := rfl
  rules := rfl
  first := List.nil_prefix
  complete := .inl rfl

theorem Writes.stopped (full : s.full env) : Writes env available s s [] where
  allRules := by simp
  baseRule := rfl
  totalRules := rfl
  rules := rfl
  first := List.nil_prefix
  complete := .inr full

theorem Writes.add (s : SurgeState) {one : Written} {rule : Text} (counts : one.counts) (text : one.rule? = some rule)
    (here : ∀ base, one.setRemote base = base) : Writes env [one] s (s.add rule) [one] where
  allRules := by simp [SurgeState.add, text]
  baseRule := (here _).symm
  totalRules := by simp [SurgeState.add, counts]
  rules := rfl
  first := List.prefix_rfl
  complete := .inl rfl

theorem Writes.refer (s : SurgeState) (rule : Text) : Writes env [.reference rule] s (s.refer rule) [.reference rule] where
  allRules := rfl
  baseRule := rfl
  totalRules := rfl
  rules := rfl
  first := List.prefix_rfl
  complete := .inl rfl

theorem Writes.referRemote (s : SurgeState) (name line : Text) :
    Writes env [.remote name line] s (s.referRemote name line) [.remote name line] where
  allRules := by simp [SurgeState.referRemote, Written.rule?]
  baseRule := rfl
  totalRules := rfl
  rules := rfl
  first := List.prefix_rfl
  complete := .inl rfl

theorem Writes.append {more : List Written} (before : Writes env available s middle written)
    (after : Writes env behind middle next more) (stays : middle.full env → next = middle) :
    ∃ all, Writes env (available ++ behind) s next all := by
  rcases before.complete with rfl | full
  · refine ⟨written ++ more, ?_, ?_, ?_, ?_, ?_, ?_⟩
    · rw [after.allRules, before.allRules, List.filterMap_append, List.append_assoc]
    · rw [after.baseRule, before.baseRule, List.foldl_append]
    · rw [after.totalRules, before.totalRules, List.countP_append, Nat.add_assoc]
    · rw [after.rules, before.rules, List.length_append, Nat.add_assoc]
    · exact (List.prefix_append_right_inj written).mpr after.first
    · exact after.complete.imp_left fun same => by rw [same]
  · obtain rfl := stays full
    exact ⟨written, before.allRules, before.baseRule, before.totalRules, before.rules,
      before.first.trans (List.prefix_append _ _), .inr full⟩

theorem surgeLines_of_full {content : RulesetSource} {lines : List Text} (full : s.full env) :
    surgeLines env content lines s = some s := by
  cases lines with
  | nil => rfl
  | cons line rest => rw [surgeLines, if_pos full]

theorem surgeContents_of_full {contents : List RulesetSource} (full : s.full env) : surgeContents env contents s = some s := by
  cases contents with
  | nil => rfl
  | cons content rest => rw [surgeContents, if_pos full]

theorem surgeLines_writes {content : RulesetSource} {lines : List Text} (ran : surgeLines env content lines s = some next) :
    ∃ written, Writes env (lines.flatMap (copiedLine env content)) s next written := by
  induction lines generalizing s with
  | nil =>
    obtain rfl := Option.some.inj ran
    exact ⟨[], .nil env s⟩
  | cons line rest ih =>
    rw [surgeLines] at ran
    rw [List.flatMap_cons, copiedLine]
    split at ran
    next full =>
      obtain rfl := Option.some.inj ran
      exact ⟨[], .stopped full⟩
    next room =>
      split at ran
      next rule =>
        rw [if_pos rule]
        split at ran
        next => cases ran
        next text found =>
          obtain ⟨more, after⟩ := ih ran
          have before : Writes env [.copied line text] s (s.add text) [.copied line text] := .add s rfl rfl fun _ => rfl
          rw [found]
          refine before.append after fun full => ?_
          rw [surgeLines_of_full full] at ran
          exact (Option.some.inj ran).symm
      next other =>
        rw [if_neg other]
        exact ih ran

theorem surgeContents_writes {contents : List RulesetSource} (ran : surgeContents env contents s = some next) :
    ∃ written, Writes env (contents.flatMap (surgeWritten env)) s next written := by
  induction contents generalizing s with
  | nil =>
    obtain rfl := Option.some.inj ran
    exact ⟨[], .nil env s⟩
  | cons content rest ih =>
    have onward : ∀ {middle : SurgeState} {available written : List Written}, Writes env available s middle written →
        surgeContents env rest middle = some next →
        ∃ all, Writes env (available ++ rest.flatMap (surgeWritten env)) s next all := by
      intro middle available written before ran
      obtain ⟨more, after⟩ := ih ran
      refine before.append after fun full => ?_
      rw [surgeContents_of_full full] at ran
      exact (Option.some.inj ran).symm
    rw [surgeContents] at ran
    rw [List.flatMap_cons, surgeWritten]
    split at ran
    next full =>
      obtain rfl := Option.some.inj ran
      exact ⟨[], .stopped full⟩
    next room =>
      split at ran
      next pathless =>
        rw [if_pos pathless]
        split at ran
        next => cases ran
        next rule found =>
          rw [found]
          exact onward (.add s rfl rfl fun _ => rfl) ran
      next path =>
        rw [if_neg path]
        split at ran
        next rule _ => exact onward (.refer s rule) ran
        next name line _ => exact onward (.referRemote s name line) ran
        next => exact ih ran
        next =>
          split at ran
          next empty =>
            rw [if_pos empty]
            exact ih ran
          next filled =>
            rw [if_neg filled]
            obtain ⟨middle, read, ran⟩ := Option.bind_eq_some_iff.mp ran
            obtain ⟨written, before⟩ := surgeLines_writes read
            exact onward before ran

end Written

section Items

variable {env : SurgeEnv} {baseRule base : Members} {contents : List RulesetSource} {overwriteOriginalRules : Bool} {rules : Nat}

def itemCount (base : Members) : Nat := (base.iniContent.map fun entry => entry.2.length).sum

theorem itemCount_put {key : Text} {items more : List (Text × Text)} {entries : List (Text × List (Text × Text))}
    (found : Keyed.find key entries = some items) :
    ((Keyed.put key (items ++ more) entries).map fun entry => entry.2.length).sum =
      (entries.map fun entry => entry.2.length).sum + more.length := by
  induction entries with
  | nil => cases found
  | cons entry rest ih =>
    rw [Keyed.find_cons] at found
    rw [Keyed.put]
    split at found
    next same =>
      obtain rfl := Option.some.inj found
      rw [if_pos same]
      simp only [List.map_cons, List.sum_cons, List.length_append]
      omega
    next other =>
      rw [if_neg other]
      simp only [List.map_cons, List.sum_cons, ih found]
      omega

theorem itemCount_set {name item value : Text} (named : name ≠ []) : itemCount (base.set name item value) = itemCount base + 1 := by
  rw [Members.set, if_neg named]
  cases found : Keyed.find name base.iniContent with
  | some items => exact itemCount_put found
  | none =>
    rw [Keyed.find_eq_none_iff] at found
    simp [itemCount, Keyed.put_of_not_mem found]

@[simp] theorem currentSection_set {name item value : Text} : (base.set name item value).currentSection = base.currentSection := by
  unfold Members.set
  split
  next => rfl
  next => split <;> rfl

@[simp] theorem currentSection_eraseSection {name : Text} : (base.eraseSection name).currentSection = base.currentSection := by
  unfold Members.eraseSection
  split <;> rfl

@[simp] theorem currentSection_surgeBase :
    (surgeBase env.surgeVer baseRule overwriteOriginalRules).currentSection = surgeSection env.surgeVer := by
  unfold surgeBase
  dsimp only
  split_ifs <;> simp

theorem surgeSection_ne_nil (surgeVer : Int) : surgeSection surgeVer ≠ [] := by
  unfold surgeSection
  split_ifs <;> decide

theorem itemCount_setRules (rules : List Text) (named : base.currentSection ≠ []) :
    itemCount (setRules base rules) = itemCount base + rules.length := by
  induction rules generalizing base with
  | nil => rfl
  | cons rule rest ih =>
    rw [setRules, List.foldl_cons, ← setRules, ih (by simpa using named), itemCount_set named, List.length_cons]
    omega

theorem named_of_remote {content : RulesetSource} {name line : Text} (delivered : surgeDelivery env content = .remote name line) :
    name ≠ [] := by
  unfold surgeDelivery filterRemote at delivered
  split_ifs at delivered <;> cases delivered <;> decide

theorem named_of_written {content : RulesetSource} {name line : Text} (there : .remote name line ∈ surgeWritten env content) :
    name ≠ [] := by
  unfold surgeWritten at there
  split at there
  next => simp at there
  next =>
    split at there
    next => simp at there
    next delivered =>
      obtain ⟨rfl, rfl⟩ : name = _ ∧ line = _ := by simpa using there
      exact named_of_remote delivered
    next => cases there
    next =>
      split at there
      next => cases there
      next =>
        obtain ⟨line, -, copied⟩ := List.mem_flatMap.mp there
        unfold copiedLine at copied
        split at copied <;> simp at copied

theorem itemCount_written {written : List Written} (named : ∀ name line, .remote name line ∈ written → name ≠ [])
    (here : base.currentSection ≠ []) :
    itemCount (setRules (written.foldl Written.setRemote base) (written.filterMap Written.rule?)) =
      itemCount base + written.length := by
  have remotes : ∀ {base : Members}, base.currentSection ≠ [] → (written.foldl Written.setRemote base).currentSection ≠ [] ∧
      itemCount (written.foldl Written.setRemote base) + (written.filterMap Written.rule?).length =
        itemCount base + written.length := by
    induction written with
    | nil => exact fun here => ⟨here, rfl⟩
    | cons one rest ih =>
      intro base here
      have others := fun name line there => named name line (List.mem_cons_of_mem _ there)
      cases one with
      | remote name line =>
        obtain ⟨kept, counted⟩ := ih others (show (base.set name noName line).currentSection ≠ [] by simpa using here)
        rw [itemCount_set (named name line (by simp))] at counted
        refine ⟨kept, ?_⟩
        simp only [List.foldl_cons, Written.setRemote, List.filterMap_cons, Written.rule?, List.length_cons]
        omega
      | inline rule | reference rule | copied line rule =>
        obtain ⟨kept, counted⟩ := ih others here
        refine ⟨kept, ?_⟩
        simp only [List.foldl_cons, Written.setRemote, List.filterMap_cons, Written.rule?, List.length_cons]
        omega
  obtain ⟨kept, counted⟩ := remotes here
  rw [itemCount_setRules _ kept, counted]

theorem rulesetToSurge_writes {after : Members} (done : rulesetToSurge env baseRule contents overwriteOriginalRules = some (after, rules)) :
    ∃ written, written <+: contents.flatMap (surgeWritten env) ∧
      (written = contents.flatMap (surgeWritten env) ∨
        env.maxAllowedRules ≠ 0 ∧ env.maxAllowedRules < written.countP Written.counts) ∧
      after = setRules (written.foldl Written.setRemote (surgeBase env.surgeVer baseRule overwriteOriginalRules))
        (written.filterMap Written.rule?) ∧
      rules = written.length ∧
      itemCount after = itemCount (surgeBase env.surgeVer baseRule overwriteOriginalRules) + written.length := by
  rw [rulesetToSurge, Option.map_eq_some_iff] at done
  obtain ⟨s, ran, same⟩ := done
  obtain ⟨rfl, rfl⟩ := Prod.mk.inj same
  obtain ⟨written, writes⟩ := surgeContents_writes ran
  have named : ∀ name line, .remote name line ∈ written → name ≠ [] := by
    intro name line there
    obtain ⟨content, -, here⟩ := List.mem_flatMap.mp (writes.first.subset there)
    exact named_of_written here
  refine ⟨written, writes.first, ?_, ?_, ?_, ?_⟩
  · simpa [SurgeState.full, writes.totalRules] using writes.complete
  · simp [writes.baseRule, writes.allRules]
  · simpa using writes.rules
  · rw [writes.baseRule, writes.allRules]
    exact itemCount_written named (by simpa using surgeSection_ne_nil env.surgeVer)

end Items

end SubConverter.Generator
