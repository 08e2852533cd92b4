import SubConverter.Handler.GroupIds

set_option autoImplicit false

namespace SubConverter.Generator

open Handler (split startsWith dropPrefix? digitsValue Node ProxyProvider)

section Ranges

def digits (text : Text) : Bool := text ≠ [] && text.all Char.isDigit

-- std::stringstream fails on a value that no int holds.
def toInt (text : Text) (default : Int) : Int :=
  let value : Int := match text with
    | '-' :: rest => -(digitsValue rest : Int)
    | _ => digitsValue text
  if -2147483648 ≤ value ∧ value ≤ 2147483647 then value else default

inductive RangeTerm where
  | equal (n : Int)
  | range (first second : Int)
  | notEqual (n : Int)
  | notRange (first second : Int)
  | lessOrEqual (n : Int)
  | greaterOrEqual (n : Int)
deriving DecidableEq, Repr

def intMax : Int := 2147483647

def intMin : Int := -2147483648

def dropMinus : Text → Text
  | '-' :: rest => rest
  | text => text

def rangeTerm (value : Text) : Option RangeTerm :=
  if digits (dropMinus value) then some (.equal (toInt value intMax))
  else
    match value with
    | '!' :: rest =>
      if digits (dropMinus rest) then some (.notEqual (toInt (dropMinus rest) intMax))
      else
        match cutAt ['-'] rest with
        | some (first, second) =>
          if digits first && digits second then some (.notRange (toInt first intMax) (toInt second intMin)) else none
        | none => none
    | _ =>
      match cutAt ['-'] value with
      | some (first, second) =>
        if digits first && digits second then some (.range (toInt first intMax) (toInt second intMin))
        else if digits first && second = [] then some (.lessOrEqual (toInt first intMax))
        else none
      | none =>
        if value.getLast? = some '+' && digits value.dropLast then some (.greaterOrEqual (toInt value.dropLast intMin)) else none

def RangeTerm.apply (target : Int) (matched : Bool) : RangeTerm → Bool
  | .equal n => matched || n == target
  | .range first second => matched || (first ≤ target && target ≤ second)
  | .notEqual n => n != target
  | .notRange first second => !(first ≤ target && target ≤ second)
  | .lessOrEqual n => matched || n ≥ target
  | .greaterOrEqual n => matched || n ≤ target

def matchRange (range : Text) (target : Int) : Bool :=
  (split range ',').foldl (fun matched value =>
    match rangeTerm value with
    | some term => term.apply target matched
    | none => matched) false

structure PreparedRangeMatcher where
  terms : List RangeTerm

def PreparedRangeMatcher.prepare (range : Text) : PreparedRangeMatcher := ⟨(split range ',').filterMap rangeTerm⟩

def PreparedRangeMatcher.matches (matcher : PreparedRangeMatcher) (target : Int) : Bool :=
  matcher.terms.foldl (fun matched term => term.apply target matched) false

theorem prepare_matches (range : Text) (target : Int) :
    (PreparedRangeMatcher.prepare range).matches target = matchRange range target := by
  rw [PreparedRangeMatcher.matches, PreparedRangeMatcher.prepare, matchRange, List.foldl_filterMap]
  congr 1
  funext matched value
  cases rangeTerm value <;> rfl

example : (matchRange (chars "1-3,!2") 2, matchRange (chars "!2,5+") 7) = (false, true) := by decide

end Ranges

section Selectors

-- The longest run of target characters behind which the rule ends or another part begins.
def targetParts (rest : Text) : Nat → Option (Text × Text)
  | 0 => none
  | count + 1 =>
    let behind := rest.drop (count + 1)
    if startsWith behind ['!', '!'] then some (rest.take (count + 1), behind.drop 2)
    else if behind = [] then some (rest, [])
    else targetParts rest count

def isTargetChar (c : Char) : Bool := c.isDigit || c ∈ ['-', '+', '!', ',']

/-- `^!!NAME=([\d\-+!,]+)(?:!!(.*))?$` on one line. -/
def rangeSelector (marks : List Text) (line : Text) : Option (Text × Text) :=
  (marks.findSome? fun mark => dropPrefix? mark line).bind fun rest => targetParts rest (rest.takeWhile isTargetChar).length

-- The lazy group takes one character at least.
def lazyParts : Text → Option (Text × Text)
  | [] => none
  | c :: rest =>
    if startsWith rest ['!', '!'] then some ([c], rest.drop 2)
    else if rest = [] then some ([c], [])
    else (lazyParts rest).map fun parts => (c :: parts.1, parts.2)

/-- `^!!GROUP=(.+?)(?:!!(.*))?$` on one line. -/
def groupSelector (line : Text) : Option (Text × Text) := (dropPrefix? (chars "!!GROUP=") line).bind lazyParts

-- The expressions are searched for in every line.
def firstLine (selector : Text → Option (Text × Text)) (rule : Text) : Option (Text × Text) :=
  (rule.splitOn '\n').findSome? selector

def parseProviderGroupIdMatcher (rule : Text) : Option (Text × Text) :=
  if startsWith rule (chars "!!GROUPID=") then firstLine (rangeSelector [chars "!!GROUPID="]) rule else none

-- Without a match both patterns stay empty.
def splitRenameGroupRule (rule : Text) : Option (Text × Text) :=
  if startsWith rule (chars "!!GROUP=") then some ((firstLine groupSelector rule).getD ([], [])) else none

def isProviderRegexRule (rule : Text) : Bool :=
  rule ≠ [] && rule.head? ≠ some '[' && rule ≠ chars "DIRECT" && rule ≠ chars "REJECT"

end Selectors

section Selection

structure GroupEnv where
  regFind : Text → Text → Bool
  -- The selectors by type, port, server and insertion.
  otherSelector : Text → Node → Bool
  authorized : Bool
  runFilter : Text → List Node → List Text

variable (env : GroupEnv)

def remarkMatches (realRule remark : Text) : Bool := realRule = [] || env.regFind remark realRule

def isOtherSelector (rule : Text) : Bool :=
  [chars "!!INSERT=", chars "!!TYPE=", chars "!!PORT=", chars "!!SERVER="].any (startsWith rule)

/-- `PreparedGroupRule`: whether a rule selects a node. -/
def ruleMatches (rule : Text) (node : Node) : Bool :=
  if startsWith rule (chars "!!GROUP=") then
    let (target, realRule) := (firstLine groupSelector rule).getD ([], [])
    env.regFind node.group target && remarkMatches env realRule node.remark
  else if startsWith rule (chars "!!GROUPID=") then
    let (target, realRule) := (firstLine (rangeSelector [chars "!!GROUPID=", chars "!!INSERT="]) rule).getD ([], [])
    (PreparedRangeMatcher.prepare target).matches node.groupId && remarkMatches env realRule node.remark
  else if isOtherSelector rule then env.otherSelector rule node
  else remarkMatches env rule node.remark

def addMatching (rule : Text) (filtered : List Text) : List Node → List Text
  | [] => filtered
  | node :: rest =>
    addMatching rule (if ruleMatches env rule node && node.remark ∉ filtered then filtered ++ [node.remark] else filtered) rest

def groupGenerate (rule : Text) (nodelist : List Node) (filtered : List Text) : List Text :=
  if startsWith rule ['[', ']'] then filtered ++ [rule.drop 2]
  else if startsWith rule (chars "script:") && env.authorized then env.runFilter rule nodelist
  else addMatching env rule filtered nodelist

structure ProxyGroupConfig where
  name : Text
  proxies : List Text
  usingProvider : List Text := []
deriving DecidableEq, Repr

def generated (group : ProxyGroupConfig) (nodelist : List Node) : List Text :=
  group.proxies.foldl (fun filtered rule => groupGenerate env rule nodelist filtered) []

structure ClashGroup where
  name : Text
  proxies : List Text
  use : Option (List Text) := none
  filter : Option Text := none
deriving DecidableEq, Repr

def providersMatchingGroupId (target : Text) (providers : List ProxyProvider) : List ProxyProvider :=
  providers.filter fun provider => matchRange target provider.groupId

def providersMatchingGroupTag (target : Text) (providers : List ProxyProvider) : List ProxyProvider :=
  providers.filter fun provider => provider.tag ≠ [] && env.regFind provider.tag target

-- The providers of a selector, when it matches one at all, and what is left of its pattern.
def selectedProviders (rule : Text) (providers : List ProxyProvider) : Option (List ProxyProvider × Text) :=
  let byId := (parseProviderGroupIdMatcher rule).map fun parts => (providersMatchingGroupId parts.1 providers, parts.2)
  let byTag := (splitRenameGroupRule rule).map fun parts => (providersMatchingGroupTag env parts.1 providers, parts.2)
  [byId, byTag].findSome? fun selected => selected.filter fun pair => pair.1 ≠ []

/-- `use` and `filter` of a group from its first rule that may select from a provider. -/
def providerFields (group : ProxyGroupConfig) (providers : List ProxyProvider) : Option (List Text) × Option Text :=
  match group.proxies.find? isProviderRegexRule with
  | none => (none, none)
  | some rule =>
    match selectedProviders env rule providers with
    | some (selected, pattern) => (some (selected.map ProxyProvider.name), if pattern = [] then none else some pattern)
    | none => (some (providers.map ProxyProvider.name), some rule)

def clashGroup (group : ProxyGroupConfig) (nodelist : List Node) (useProxyProvider : Bool) (providers : List ProxyProvider) :
    ClashGroup :=
  let filtered := generated env group nodelist
  let (use, filter) := if useProxyProvider ∧ providers ≠ [] then providerFields env group providers else (none, none)
  ⟨group.name,
    if group.usingProvider = [] ∧ filtered = [] ∧ !useProxyProvider then [chars "DIRECT"] else filtered,
    if group.usingProvider ≠ [] then some group.usingProvider else use, filter⟩

end Selection

section Clients

variable (env : GroupEnv)

structure ProvidedNodes where
  providers : List ProxyProvider
  distinct : (providers.map ProxyProvider.name).Nodup
  nodesOf : ProxyProvider → List Text

def ProvidedNodes.expanded (provided : ProvidedNodes) : List Node :=
  provided.providers.flatMap fun provider =>
    (provided.nodesOf provider).map fun name => ⟨name, provider.tag, provider.groupId, false, provider.origin⟩

def clientNodes (provided : ProvidedNodes) (group : ClashGroup) : Set Text :=
  {name | name ∈ group.proxies ∨ ∃ provider ∈ provided.providers, ∃ use ∈ group.use, provider.name ∈ use ∧
    name ∈ provided.nodesOf provider ∧ ∀ pattern ∈ group.filter, env.regFind name pattern}

def expandedNodes (provided : ProvidedNodes) (group : ProxyGroupConfig) (nodelist : List Node) : Set Text :=
  {name | name ∈ generated env group (nodelist ++ provided.expanded)}

end Clients

section Membership

variable {env : GroupEnv} {nodelist : List Node} {name : Text}

def isLiteral (rule : Text) : Bool := startsWith rule ['[', ']']

def Additive (env : GroupEnv) (rule : Text) : Prop := (startsWith rule (chars "script:") && env.authorized) = false

def Adds (env : GroupEnv) (nodelist : List Node) (rule name : Text) : Prop :=
  if isLiteral rule then name = rule.drop 2 else ∃ node ∈ nodelist, ruleMatches env rule node ∧ node.remark = name

theorem mem_addMatching_iff {rule : Text} {filtered : List Text} :
    name ∈ addMatching env rule filtered nodelist ↔
      name ∈ filtered ∨ ∃ node ∈ nodelist, ruleMatches env rule node ∧ node.remark = name := by
  induction nodelist generalizing filtered with
  | nil => simp [addMatching]
  | cons node rest ih =>
    rw [addMatching, ih]
    by_cases matched : ruleMatches env rule node = true
    · by_cases old : node.remark ∈ filtered
      · have same : node.remark = name → name ∈ filtered := fun equal => equal ▸ old
        simp [matched, old]
        tauto
      · have turned : name = node.remark ↔ node.remark = name := eq_comm
        simp [matched, old, or_assoc, turned]
    · simp [matched]

theorem mem_groupGenerate_iff {rule : Text} {filtered : List Text} (additive : Additive env rule) :
    name ∈ groupGenerate env rule nodelist filtered ↔ name ∈ filtered ∨ Adds env nodelist rule name := by
  unfold groupGenerate Adds isLiteral
  by_cases literal : startsWith rule ['[', ']'] = true
  · simp [literal]
  · have plain : ¬(startsWith rule (chars "script:") && env.authorized) = true := by
      rw [show (startsWith rule (chars "script:") && env.authorized) = false from additive]
      simp
    rw [if_neg literal, if_neg plain, if_neg literal, mem_addMatching_iff]

theorem mem_generated_iff {group : ProxyGroupConfig} (additive : ∀ rule ∈ group.proxies, Additive env rule) :
    name ∈ generated env group nodelist ↔ ∃ rule ∈ group.proxies, Adds env nodelist rule name := by
  have run : ∀ (rules filtered : List Text), (∀ rule ∈ rules, Additive env rule) →
      (name ∈ rules.foldl (fun filtered rule => groupGenerate env rule nodelist filtered) filtered ↔
        name ∈ filtered ∨ ∃ rule ∈ rules, Adds env nodelist rule name) := by
    intro rules
    induction rules with
    | nil => simp
    | cons rule rest ih =>
      intro filtered additive
      obtain ⟨here, others⟩ := List.forall_mem_cons.mp additive
      rw [List.foldl_cons, ih _ others, mem_groupGenerate_iff here, or_assoc]
      simp
  rw [generated, run group.proxies [] additive]
  simp

theorem adds_append_iff {rule : Text} {others : List Node} : Adds env (nodelist ++ others) rule name ↔
    Adds env nodelist rule name ∨ isLiteral rule = false ∧ ∃ node ∈ others, ruleMatches env rule node ∧ node.remark = name := by
  unfold Adds
  cases isLiteral rule with
  | true => simp
  | false => simp [or_and_right, exists_or]

end Membership

section Providers

variable {env : GroupEnv} {provided : ProvidedNodes} {nodelist : List Node} {group : ProxyGroupConfig} {name : Text}

def providedNode (provider : ProxyProvider) (name : Text) : Node := ⟨name, provider.tag, provider.groupId, false, provider.origin⟩

def Selects (env : GroupEnv) (rule : Text) (provider : ProxyProvider) (name : Text) : Prop :=
  isLiteral rule = false ∧ ruleMatches env rule (providedNode provider name) = true

theorem mem_expanded_iff {node : Node} : node ∈ provided.expanded ↔
    ∃ provider ∈ provided.providers, ∃ name ∈ provided.nodesOf provider, providedNode provider name = node := by
  simp [ProvidedNodes.expanded, providedNode]

theorem mem_expandedNodes_iff (additive : ∀ rule ∈ group.proxies, Additive env rule) :
    name ∈ expandedNodes env provided group nodelist ↔ name ∈ generated env group nodelist ∨
      ∃ provider ∈ provided.providers, name ∈ provided.nodesOf provider ∧ ∃ rule ∈ group.proxies, Selects env rule provider name := by
  rw [expandedNodes, Set.mem_ofPred_eq, mem_generated_iff additive, mem_generated_iff additive]
  constructor
  · rintro ⟨rule, member, adds⟩
    rcases adds_append_iff.mp adds with direct | ⟨plain, node, expanded, matched, rfl⟩
    · exact .inl ⟨rule, member, direct⟩
    · obtain ⟨provider, known, remark, owned, rfl⟩ := mem_expanded_iff.mp expanded
      exact .inr ⟨provider, known, owned, rule, member, plain, matched⟩
  · rintro (⟨rule, member, direct⟩ | ⟨provider, known, owned, rule, member, plain, matched⟩)
    · exact ⟨rule, member, adds_append_iff.mpr (.inl direct)⟩
    · have expanded : providedNode provider name ∈ provided.expanded := mem_expanded_iff.mpr ⟨provider, known, name, owned, rfl⟩
      exact ⟨rule, member, adds_append_iff.mpr (.inr ⟨plain, _, expanded, matched, rfl⟩)⟩

theorem ProvidedNodes.eq_of_name (provided : ProvidedNodes) {one other : ProxyProvider} (here : one ∈ provided.providers)
    (there : other ∈ provided.providers) (same : one.name = other.name) : one = other :=
  List.inj_on_of_nodup_map provided.distinct here there same

theorem name_mem_map_iff {provider : ProxyProvider} {selected : List ProxyProvider} (known : provider ∈ provided.providers)
    (within : ∀ other ∈ selected, other ∈ provided.providers) :
    provider.name ∈ selected.map ProxyProvider.name ↔ provider ∈ selected := by
  constructor
  · intro named
    obtain ⟨other, member, same⟩ := List.mem_map.mp named
    rwa [← provided.eq_of_name (within other member) known same]
  · exact List.mem_map_of_mem

theorem selectedProviders_fits {rule : Text} {providers selected : List ProxyProvider} {pattern : Text}
    (found : selectedProviders env rule providers = some (selected, pattern)) (provider : ProxyProvider) :
    (∃ target, parseProviderGroupIdMatcher rule = some (target, pattern) ∧
      (provider ∈ selected ↔ provider ∈ providers ∧ matchRange target provider.groupId)) ∨
    (∃ target, splitRenameGroupRule rule = some (target, pattern) ∧
      (provider ∈ selected ↔ provider ∈ providers ∧ provider.tag ≠ [] ∧ env.regFind provider.tag target)) := by
  obtain ⟨chosen, member, filtered⟩ := List.exists_of_findSome?_eq_some found
  obtain ⟨rfl, -⟩ := Option.filter_eq_some_iff.mp filtered
  simp only [List.mem_cons, List.not_mem_nil, or_false] at member
  rcases member with byId | byTag
  · obtain ⟨⟨target, rest⟩, parsed, same⟩ := Option.map_eq_some_iff.mp byId.symm
    obtain ⟨rfl, rfl⟩ := Prod.mk.inj same
    exact .inl ⟨target, parsed, by simp [providersMatchingGroupId]⟩
  · obtain ⟨⟨target, rest⟩, parsed, same⟩ := Option.map_eq_some_iff.mp byTag.symm
    obtain ⟨rfl, rfl⟩ := Prod.mk.inj same
    exact .inr ⟨target, parsed, by simp [providersMatchingGroupTag]⟩

theorem selectedProviders_mem {rule : Text} {providers selected : List ProxyProvider} {pattern : Text}
    (found : selectedProviders env rule providers = some (selected, pattern)) {provider : ProxyProvider}
    (member : provider ∈ selected) : provider ∈ providers := by
  rcases selectedProviders_fits found provider with ⟨target, _, fits⟩ | ⟨target, _, fits⟩
  · exact (fits.mp member).1
  · exact (fits.mp member).1

def Covers (env : GroupEnv) (providers : List ProxyProvider) (rule : Text) (provider : ProxyProvider) (name : Text) : Prop :=
  match selectedProviders env rule providers with
  | some (selected, pattern) => provider ∈ selected ∧ remarkMatches env pattern name
  | none => env.regFind name rule

theorem mem_clientNodes_iff (noUse : group.usingProvider = []) :
    name ∈ clientNodes env provided (clashGroup env group nodelist true provided.providers) ↔
      name ∈ generated env group nodelist ∨ ∃ provider ∈ provided.providers, name ∈ provided.nodesOf provider ∧
        ∃ first, group.proxies.find? isProviderRegexRule = some first ∧ Covers env provided.providers first provider name := by
  have direct : (clashGroup env group nodelist true provided.providers).proxies = generated env group nodelist := by
    simp [clashGroup]
  rw [clientNodes, Set.mem_ofPred_eq, direct]
  refine or_congr_right (exists_congr fun provider => and_congr_right fun known => ?_)
  have present : provided.providers ≠ [] := List.ne_nil_of_mem known
  cases choice : group.proxies.find? isProviderRegexRule with
  | none => simp [clashGroup, providerFields, noUse, choice]
  | some first =>
    cases found : selectedProviders env first provided.providers with
    | none =>
      have named : provider.name ∈ provided.providers.map ProxyProvider.name := List.mem_map_of_mem known
      simp [clashGroup, providerFields, noUse, choice, found, present, Covers, named]
    | some fields =>
      obtain ⟨selected, pattern⟩ := fields
      have named : provider.name ∈ selected.map ProxyProvider.name ↔ provider ∈ selected :=
        name_mem_map_iff known fun other member => selectedProviders_mem found member
      rw [List.mem_map] at named
      by_cases everything : pattern = []
      · simp [clashGroup, providerFields, noUse, choice, found, present, Covers, remarkMatches, everything, named]
        rw [and_comm]
      · simp [clashGroup, providerFields, noUse, choice, found, present, Covers, remarkMatches, everything, named]
        rw [and_left_comm]

def isSelector (rule : Text) : Bool :=
  startsWith rule (chars "!!GROUP=") || startsWith rule (chars "!!GROUPID=") || isOtherSelector rule

theorem notLiteral_of_dynamic {rule : Text} (dynamic : isProviderRegexRule rule = true) : isLiteral rule = false := by
  cases rule with
  | nil => rfl
  | cons c rest =>
    have other : c ≠ '[' := by
      intro bracket
      simp [isProviderRegexRule, bracket] at dynamic
    simp [isLiteral, startsWith, List.isPrefixOf, Ne.symm other]

theorem firstLine_of_single {selector : Text → Option (Text × Text)} {rule : Text} (single : '\n' ∉ rule) :
    firstLine selector rule = selector rule := by
  rw [firstLine, List.splitOn_eq_singleton single]
  cases parsed : selector rule <;> simp [parsed]

theorem rangeSelector_insert {line : Text} (marked : startsWith line (chars "!!GROUPID=") = true) :
    rangeSelector [chars "!!GROUPID=", chars "!!INSERT="] line = rangeSelector [chars "!!GROUPID="] line := by
  have dropped : dropPrefix? (chars "!!GROUPID=") line = some (line.drop (chars "!!GROUPID=").length) := if_pos marked
  simp [rangeSelector, dropped]

theorem startsWith_group_of_groupId {rule : Text} (marked : startsWith rule (chars "!!GROUPID=") = true) :
    startsWith rule (chars "!!GROUP=") = false := by
  obtain ⟨rest, rfl⟩ := List.isPrefixOf_iff_prefix.mp marked
  rfl

theorem selected_iff_matches {rule pattern : Text} {provider : ProxyProvider} {selected : List ProxyProvider}
    (known : provider ∈ provided.providers) (single : '\n' ∉ rule)
    (tagged : startsWith rule (chars "!!GROUP=") → ∀ provider ∈ provided.providers, provider.tag ≠ [])
    (found : selectedProviders env rule provided.providers = some (selected, pattern)) :
    (provider ∈ selected ∧ remarkMatches env pattern name = true) ↔ ruleMatches env rule (providedNode provider name) = true := by
  rcases selectedProviders_fits found provider with ⟨target, parsed, chosen⟩ | ⟨target, parsed, chosen⟩
  · have marked : startsWith rule (chars "!!GROUPID=") = true := by
      by_contra other
      simp [parseProviderGroupIdMatcher, other] at parsed
    rw [parseProviderGroupIdMatcher, if_pos marked, firstLine_of_single single] at parsed
    have both : firstLine (rangeSelector [chars "!!GROUPID=", chars "!!INSERT="]) rule = some (target, pattern) := by
      rw [firstLine_of_single single, rangeSelector_insert marked, parsed]
    rw [chosen]
    simp [ruleMatches, startsWith_group_of_groupId marked, marked, both, providedNode, prepare_matches, known]
  · have marked : startsWith rule (chars "!!GROUP=") = true := by
      by_contra other
      simp [splitRenameGroupRule, other] at parsed
    rw [splitRenameGroupRule, if_pos marked, Option.some_inj] at parsed
    rw [chosen]
    simp [ruleMatches, marked, parsed, providedNode, known, tagged marked provider known]

structure FindsProviders (env : GroupEnv) (providers : List ProxyProvider) (rule : Text) : Prop where
  finds : selectedProviders env rule providers ≠ none
  single : '\n' ∉ rule
  tagged : startsWith rule (chars "!!GROUP=") → ∀ provider ∈ providers, provider.tag ≠ []

def Usual (env : GroupEnv) (providers : List ProxyProvider) (rule : Text) : Prop :=
  isSelector rule → FindsProviders env providers rule

theorem selectedProviders_pattern {rule : Text} (pattern : isSelector rule = false) (providers : List ProxyProvider) :
    selectedProviders env rule providers = none := by
  simp only [isSelector, Bool.or_eq_false_iff] at pattern
  simp [selectedProviders, parseProviderGroupIdMatcher, splitRenameGroupRule, pattern.1.1, pattern.1.2]

theorem covers_iff_selects {rule : Text} {provider : ProxyProvider} (dynamic : isProviderRegexRule rule = true)
    (usual : Usual env provided.providers rule) (known : provider ∈ provided.providers) :
    Covers env provided.providers rule provider name ↔ Selects env rule provider name := by
  have plain := notLiteral_of_dynamic dynamic
  cases kind : isSelector rule with
  | true =>
    obtain ⟨finds, single, tagged⟩ := usual kind
    obtain ⟨⟨selected, pattern⟩, found⟩ := Option.ne_none_iff_exists'.mp finds
    simp only [Covers, found, Selects, plain, true_and]
    exact selected_iff_matches known single tagged found
  | false =>
    have nonempty : rule ≠ [] := by
      rintro rfl
      exact absurd dynamic (by decide)
    have none := @selectedProviders_pattern env _ kind provided.providers
    simp only [isSelector, Bool.or_eq_false_iff] at kind
    obtain ⟨⟨group, groupId⟩, other⟩ := kind
    simp [Covers, none, Selects, plain, ruleMatches, group, groupId, other, remarkMatches, providedNode, nonempty]

end Providers

section Agreement

variable (env : GroupEnv) (provided : ProvidedNodes) (group : ProxyGroupConfig) (nodelist : List Node)

def Named (name : Text) : Prop := ∃ rule ∈ group.proxies, Adds env nodelist rule name

def Covered (name : Text) : Prop :=
  ∃ provider ∈ provided.providers, name ∈ provided.nodesOf provider ∧
    ∃ first, group.proxies.find? isProviderRegexRule = some first ∧ Covers env provided.providers first provider name

def Selected (name : Text) : Prop :=
  ∃ provider ∈ provided.providers, name ∈ provided.nodesOf provider ∧ ∃ rule ∈ group.proxies, Selects env rule provider name

structure FirstRuleDecides : Prop where
  others : ∀ rule ∈ group.proxies, group.proxies.find? isProviderRegexRule ≠ some rule →
    ∀ provider ∈ provided.providers, ∀ name ∈ provided.nodesOf provider, Selects env rule provider name →
      Named env group nodelist name ∨ Covered env provided group name
  first : ∀ rule, group.proxies.find? isProviderRegexRule = some rule → ¬Usual env provided.providers rule →
    ∀ provider ∈ provided.providers, ∀ name ∈ provided.nodesOf provider,
      (Selects env rule provider name → Named env group nodelist name ∨ Covered env provided group name) ∧
      (Covers env provided.providers rule provider name → Named env group nodelist name ∨ Selected env provided group name)

variable {env provided group nodelist}

theorem covered_of_selected {name : Text} (decides : FirstRuleDecides env provided group nodelist)
    (selected : Selected env provided group name) : Named env group nodelist name ∨ Covered env provided group name := by
  obtain ⟨provider, known, owned, rule, member, selects⟩ := selected
  by_cases choice : group.proxies.find? isProviderRegexRule = some rule
  · have dynamic : isProviderRegexRule rule = true := List.find?_some choice
    by_cases usual : Usual env provided.providers rule
    · exact .inr ⟨provider, known, owned, rule, choice, (covers_iff_selects dynamic usual known).mpr selects⟩
    · exact (decides.first rule choice usual provider known name owned).1 selects
  · exact decides.others rule member choice provider known name owned selects

theorem selected_of_covered {name : Text} (decides : FirstRuleDecides env provided group nodelist)
    (covered : Covered env provided group name) : Named env group nodelist name ∨ Selected env provided group name := by
  obtain ⟨provider, known, owned, rule, choice, covers⟩ := covered
  have dynamic : isProviderRegexRule rule = true := List.find?_some choice
  by_cases usual : Usual env provided.providers rule
  · have selects := (covers_iff_selects dynamic usual known).mp covers
    exact .inr ⟨provider, known, owned, rule, List.mem_of_find?_eq_some choice, selects⟩
  · exact (decides.first rule choice usual provider known name owned).2 covers

theorem clientNodes_eq_expandedNodes_iff (noUse : group.usingProvider = []) (additive : ∀ rule ∈ group.proxies, Additive env rule) :
    clientNodes env provided (clashGroup env group nodelist true provided.providers) = expandedNodes env provided group nodelist ↔
      FirstRuleDecides env provided group nodelist := by
  have client : ∀ name, name ∈ clientNodes env provided (clashGroup env group nodelist true provided.providers) ↔
      Named env group nodelist name ∨ Covered env provided group name := by
    intro name
    rw [mem_clientNodes_iff noUse, mem_generated_iff additive]
    rfl
  have expanded : ∀ name, name ∈ expandedNodes env provided group nodelist ↔
      Named env group nodelist name ∨ Selected env provided group name := by
    intro name
    rw [mem_expandedNodes_iff additive, mem_generated_iff additive]
    rfl
  rw [Set.ext_iff]
  simp only [client, expanded]
  constructor
  · intro same
    constructor
    · intro rule member _ provider known name owned selects
      exact (same name).mpr (.inr ⟨provider, known, owned, rule, member, selects⟩)
    · intro rule choice _ provider known name owned
      constructor
      · intro selects
        exact (same name).mpr (.inr ⟨provider, known, owned, rule, List.mem_of_find?_eq_some choice, selects⟩)
      · intro covers
        exact (same name).mp (.inr ⟨provider, known, owned, rule, choice, covers⟩)
  · intro decides name
    constructor
    · rintro (named | covered)
      · exact .inl named
      · exact selected_of_covered decides covered
    · rintro (named | selected)
      · exact .inl named
      · exact covered_of_selected decides selected

end Agreement

section TwoPatterns

def plainPatterns : GroupEnv :=
  ⟨fun text pattern => decide (pattern <:+: text), fun _ _ => false, false, fun _ _ => []⟩

def oneProvider : ProvidedNodes :=
  ⟨[⟨chars "Airport", chars "Airport", chars "https://sub.example/all", 0, false, 0, 0⟩], by decide,
    fun _ => [chars "HK 1", chars "US 1"]⟩

def patterns (rules : List Text) : ProxyGroupConfig := ⟨chars "Auto", rules, []⟩

theorem clientNodes_eq_expandedNodes_members :
    clientNodes plainPatterns oneProvider
        (clashGroup plainPatterns (patterns [chars "[]DIRECT", chars "1", chars "US"]) [] true oneProvider.providers) =
      expandedNodes plainPatterns oneProvider (patterns [chars "[]DIRECT", chars "1", chars "US"]) [] := by
  have usual : Usual plainPatterns oneProvider.providers (chars "1") := by
    intro selector
    exact absurd selector (by decide)
  have known : ⟨chars "Airport", chars "Airport", chars "https://sub.example/all", 0, false, 0, 0⟩ ∈ oneProvider.providers :=
    List.mem_singleton_self _
  have first : (patterns [chars "[]DIRECT", chars "1", chars "US"]).proxies.find? isProviderRegexRule = some (chars "1") := by
    decide
  apply (clientNodes_eq_expandedNodes_iff rfl _).mpr
  · constructor
    · -- Both nodes of the provider have a 1 in their names.
      intro rule _ _ provider _ name owned _
      have covers : ∀ name ∈ [chars "HK 1", chars "US 1"], plainPatterns.regFind name (chars "1") := by decide
      have pattern : selectedProviders plainPatterns (chars "1") oneProvider.providers = none := by decide
      refine .inr ⟨_, known, owned, _, first, ?_⟩
      rw [Covers, pattern]
      exact covers name owned
    · intro rule choice unusual
      obtain rfl : chars "1" = rule := Option.some_inj.mp (first.symm.trans choice)
      exact absurd usual unusual
  · intro rule _
    simp [Additive, plainPatterns]

theorem clientNodes_ne_expandedNodes_us :
    chars "US 1" ∈ expandedNodes plainPatterns oneProvider (patterns [chars "HK", chars "US"]) [] ∧
      chars "US 1" ∉ clientNodes plainPatterns oneProvider
        (clashGroup plainPatterns (patterns [chars "HK", chars "US"]) [] true oneProvider.providers) := by
  constructor
  · have selected : chars "US 1" ∈ generated plainPatterns (patterns [chars "HK", chars "US"]) oneProvider.expanded := by
      decide
    exact selected
  · have fields : clashGroup plainPatterns (patterns [chars "HK", chars "US"]) [] true oneProvider.providers =
        ⟨chars "Auto", [], some [chars "Airport"], some (chars "HK")⟩ := by
      decide
    rw [fields]
    rintro (direct | ⟨provider, _, use, _, _, _, passes⟩)
    · exact absurd direct (by decide)
    · exact absurd (passes (chars "HK") rfl) (by decide)

end TwoPatterns

end SubConverter.Generator
