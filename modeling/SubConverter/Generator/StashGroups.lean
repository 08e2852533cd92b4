import SubConverter.Lib.Results
import SubConverter.Generator.ExternalRules
import SubConverter.Generator.StashBase

set_option autoImplicit false

namespace SubConverter.Generator

open Handler (Node startsWith toLower)

section Providers

structure StashProxyProvider where
  name : Text
  requestedName : Text := []
  selectionName : Text := []
  sourceTag : Text := []
  url : Text := []
  path : Text
  interval : Int := 3600
  groupId : Int := 0
  headers : List (Text × Text) := []
deriving DecidableEq, Repr

def integer : Int → Text
  | .ofNat n => decimal n
  | .negSucc n => '-' :: decimal (n + 1)

def entry (key : String) (value : Text) : YamlNode × YamlNode := (.scalar (chars key), .scalar value)

def StashProxyProvider.item (provider : StashProxyProvider) : YamlNode :=
  let headers := provider.headers.map fun header => (YamlNode.scalar header.1, YamlNode.scalar header.2)
  .map ([entry "url" provider.url, entry "path" provider.path, entry "interval" (integer provider.interval)] ++
    if headers = [] then [] else [(.scalar (chars "headers"), .map headers)])

-- The keys so far are those of the earlier providers, in lower case.
def baseProviderKeys : Entries → List Text → List Text → Except StashError (List Text × List Text)
  | [], names, paths => .ok (names, paths)
  | (key, value) :: rest, names, paths =>
    match key.text?, value.entries? with
    | some name, some entries =>
      if name = [] ∨ toLower name ∈ names then .error (.baseSchema (chars "proxy-providers.name"))
      else
        match field entries (chars "path") with
        | none => baseProviderKeys rest (toLower name :: names) paths
        | some (.scalar path) =>
          if path ≠ [] ∧ toLower path ∈ paths then .error (.baseSchema (chars "proxy-providers.path"))
          else baseProviderKeys rest (toLower name :: names) (if path = [] then paths else toLower path :: paths)
        | some _ => .error (.baseSchema (chars "proxy-providers.path"))
    | _, _ => .error (.baseSchema (chars "proxy-providers"))

def addProviders : List StashProxyProvider → List Text → List Text → Entries → Except StashError Entries
  | [], _, _, entries => .ok entries
  | provider :: rest, names, paths, entries =>
    if toLower provider.name ∈ names ∨ toLower provider.path ∈ paths then .error .providerConflict
    else
      addProviders rest (toLower provider.name :: names) (toLower provider.path :: paths)
        (setField provider.name provider.item entries)

def stashProviders (root : Entries) (providers : List StashProxyProvider) : Except StashError Entries := do
  let base := mappingOf root (chars "proxy-providers")
  let (names, paths) ← baseProviderKeys base [] []
  addProviders providers names paths base

end Providers

section Selection

variable (env : GroupEnv)

structure StashSelection where
  providers : List StashProxyProvider := []
  filter : Text := []
  sawSelector : Bool := false

def addSelected (fits : StashProxyProvider → Bool) (providers selected : List StashProxyProvider) : List StashProxyProvider :=
  providers.foldl (fun selected provider => if fits provider ∧ provider ∉ selected then selected ++ [provider] else selected) selected

def remoteSelector (rule : Text) : Option ((StashProxyProvider → Bool) × Text) :=
  match parseProviderGroupIdMatcher rule with
  | some (selector, pattern) => some (fun provider => matchRange selector provider.groupId, pattern)
  | none =>
    if startsWith rule (chars "!!GROUP=") then
      (firstLine groupSelector rule).map fun parts =>
        (fun provider => provider.sourceTag ≠ [] && env.regFind provider.sourceTag parts.1, parts.2)
    else if !startsWith rule (chars "!!") && !startsWith rule (chars "script:") then some (fun _ => true, rule)
    else none

def isStaticMember (rule : Text) : Bool :=
  startsWith rule (chars "[]") || rule = chars "DIRECT" || rule = chars "REJECT" ||
    startsWith (toLower rule) (chars "http://") || startsWith (toLower rule) (chars "https://")

def selectRemote (providers : List StashProxyProvider) : List Text → StashSelection → Option StashSelection
  | [], selection => some selection
  | rule :: rest, selection =>
    match if isStaticMember rule then none else remoteSelector env rule with
    | none => selectRemote providers rest selection
    | some (fits, pattern) =>
      if selection.sawSelector && selection.filter ≠ pattern then none
      else selectRemote providers rest ⟨addSelected fits providers selection.providers, pattern, true⟩

def stashProvidersForGroup (group : ProxyGroupConfig) (providers : List StashProxyProvider) : Option StashSelection :=
  if providers = [] then some {}
  else if group.usingProvider ≠ [] then
    some { providers := addSelected (fun provider => group.usingProvider.any fun requested =>
      requested = provider.name || requested = provider.requestedName || requested = provider.selectionName) providers [] }
  else selectRemote env providers group.proxies {}

end Selection

section Groups

inductive ProxyGroupType where
  | select
  | urlTest
  | fallback
  | loadBalance
  | relay
  | ssid
  | smart
deriving DecidableEq, Repr

structure StashGroupConfig extends ProxyGroupConfig where
  type : ProxyGroupType := .select
  url : Text := []
  interval : Int := 0
  timeout : Int := 0
  strategy : Text := []
  lazy : Option Bool := none
  disableUdp : Bool := false
  persistent : Bool := false
  evaluateBeforeUse : Bool := false
deriving DecidableEq, Repr

variable (env : GroupEnv)

def typeEntries (group : StashGroupConfig) : List (YamlNode × YamlNode) :=
  match group.type with
  | .urlTest => [entry "type" (chars "url-test")]
  | .fallback => [entry "type" (chars "fallback")]
  | .loadBalance => [entry "type" (chars "load-balance"), entry "strategy" group.strategy]
  | .relay =>
    [entry "type" (chars "relay")] ++ (if group.url = [] then [] else [entry "benchmark-url" group.url]) ++
      if 0 < group.timeout then [entry "benchmark-timeout" (integer group.timeout)] else []
  | _ => [entry "type" (chars "select")]

def listEntry (key : String) (texts : List Text) : List (YamlNode × YamlNode) :=
  if texts = [] then [] else [(.scalar (chars key), textSequence texts)]

def groupItem (group : StashGroupConfig) (emitted : List Node) (remote : StashSelection) : YamlNode :=
  let members := generated env group.toProxyGroupConfig emitted
  .map ([entry "name" group.name] ++ typeEntries group ++
    listEntry "proxies" (if members = [] ∧ remote.providers = [] then [chars "DIRECT"] else members) ++
    listEntry "use" (remote.providers.map StashProxyProvider.name) ++
    (if remote.providers ≠ [] ∧ remote.filter ≠ [] then [entry "filter" remote.filter] else []) ++
    (if group.interval ≠ 0 then [entry "interval" (integer group.interval)] else []) ++
    match group.lazy with
    | none => []
    | some lazy => [entry "lazy" (chars (if lazy then "true" else "false"))])

def checkGroup (group : StashGroupConfig) (providers : List StashProxyProvider) : Except StashError StashSelection :=
  if group.type = .smart ∨ group.type = .ssid then .error .groupType
  else if group.disableUdp ∨ group.persistent ∨ group.evaluateBeforeUse then .error .groupOptions
  else
    match stashProvidersForGroup env group.toProxyGroupConfig providers with
    | none => .error .groupSelectors
    | some remote => if group.type = .relay ∧ remote.providers ≠ [] then .error .relayProvider else .ok remote

structure PreferredEntry where
  group : Text := []
  hasProvider : Bool := false

def PreferredEntry.offer (preferred : PreferredEntry) (group : Text) (hasProvider : Bool) : PreferredEntry :=
  if preferred.group = [] ∨ (!preferred.hasProvider ∧ hasProvider) then ⟨group, hasProvider⟩ else preferred

def customGroups (emitted : List Node) (providers : List StashProxyProvider) :
    List StashGroupConfig → PreferredEntry → Except StashError (List YamlNode × PreferredEntry)
  | [], preferred => .ok ([], preferred)
  | group :: rest, preferred => do
    let remote ← checkGroup env group providers
    let (items, entry) ← customGroups emitted providers rest (preferred.offer group.name (remote.providers ≠ []))
    .ok (groupItem env group emitted remote :: items, entry)

def entryName : Text := chars "Proxy"

def entryGroup (members uses : List Text) : YamlNode :=
  .map ([entry "name" entryName, entry "type" (chars "select")] ++ listEntry "proxies" members ++ listEntry "use" uses)

-- The names that are not among those seen, each of them once.
def newNames : List Text → List Text → List Text
  | [], _ => []
  | name :: rest, seen => if name ∈ seen then newNames rest seen else name :: newNames rest (name :: seen)

def extendMembers (key : Text) (added : List Text) (entries : Entries) : Entries :=
  let items := sequenceOf entries key
  let extra := newNames added (items.filterMap YamlNode.text?)
  if extra = [] then entries else setField key (.sequence (items ++ extra.map .scalar)) entries

def attachMembers (emitted providers : List Text) (group : YamlNode) : YamlNode :=
  .map (extendMembers (chars "use") providers (extendMembers (chars "proxies") emitted (group.entries?.getD [])))

def attachEntry (emitted providers : List Text) : List YamlNode → Except StashError (List YamlNode)
  | [] => .ok [entryGroup (chars "DIRECT" :: emitted) providers]
  | group :: rest =>
    if group.name? = some entryName then
      if (group.field? (chars "type")).bind YamlNode.text? = some (chars "select") then
        .ok (attachMembers emitted providers group :: rest)
      else .error .entryNotSelect
    else (attachEntry emitted providers rest).map fun groups => group :: groups

def stashGroups (root : Entries) (custom : List StashGroupConfig) (providers : List StashProxyProvider) (emitted : List Node) :
    Except StashError (Option (List YamlNode)) :=
  if custom = [] then
    if emitted = [] ∧ providers = [] then .ok none
    else
      (attachEntry (emitted.map Node.remark) (providers.map StashProxyProvider.name)
        (sequenceOf root (chars "proxy-groups"))).map some
  else do
    let (items, preferred) ← customGroups env emitted providers custom {}
    if custom.any fun group => group.name = entryName then .ok (some items)
    else if custom.any fun group => chars "[]Proxy" ∈ group.proxies then .error .entryCycle
    else .ok (some (items ++ [entryGroup [if preferred.group = [] then chars "DIRECT" else preferred.group] []]))

end Groups

section Rules

structure ExtraRules where
  userPrepend : List Text := []
  prepend : List Text := []
  append : List Text := []
  maxAllowedRules : Nat := 0
deriving DecidableEq, Repr

-- A sequence with anything but scalars counts as an empty one.
def ruleTexts (root : Entries) : List Text := (texts? (sequenceOf root (chars "rules"))).getD []

def mergeRules (extra : ExtraRules) (root : Entries) : Except StashError Entries :=
  if extra.userPrepend = [] ∧ extra.prepend = [] ∧ extra.append = [] then .ok root
  else
    let merged := mergeClashRules extra.userPrepend extra.prepend [] (ruleTexts root) extra.append
    if extra.maxAllowedRules ≠ 0 ∧ extra.maxAllowedRules < merged.length then .error .ruleLimit
    else .ok (setField (chars "rules") (textSequence merged) root)

end Rules

section Assembly

/-- What a conversion gets from elsewhere: the rules and the rule providers that `rulesetToStash` makes of the rule sets. -/
structure StashEnv where
  groups : GroupEnv
  rulesetToStash : Entries → Except Text (YamlNode × YamlNode)

structure StashRequest where
  -- The base template as the YAML library reads it.
  base : Option YamlNode
  nodes : List StashNode
  customGroups : List StashGroupConfig := []
  providers : List StashProxyProvider := []
  appendProxyType : Bool := false
  enableRuleGenerator : Bool := false
  extraRules : ExtraRules := {}

variable (env : StashEnv)

def convertRulesets (enabled : Bool) (root : Entries) : Except StashError Entries :=
  if enabled then
    match env.rulesetToStash root with
    | .error error => .error (.ruleset error)
    | .ok (rules, providers) => .ok (setField (chars "rule-providers") providers (setField (chars "rules") rules root))
  else .ok root

def baseRoot (request : StashRequest) : Except StashError Entries :=
  match request.base with
  | none => .error .parse
  | some (.map root) => .ok root
  | some _ => .error .notMapping

def emittedOf (request : StashRequest) (planned : PlannedNames) : List (YamlNode × Node) :=
  emitNodes request.appendProxyType request.nodes planned.reserved

def withGroups (groups : Option (List YamlNode)) (root : Entries) : Entries :=
  match groups with
  | none => root
  | some groups => setField (chars "proxy-groups") (.sequence groups) root

def assembleStash (request : StashRequest) : Except StashError Entries := do
  let root ← baseRoot request
  let planned ← planNames root (request.customGroups.map fun group => group.name)
  let emitted := emittedOf request planned
  let root := setField (chars "proxies") (.sequence (sequenceOf root (chars "proxies") ++ emitted.map Prod.fst)) root
  let providers ← stashProviders root request.providers
  let root := setField (chars "proxy-providers") (.map providers) root
  let groups ← stashGroups env.groups root request.customGroups request.providers (emitted.map Prod.snd)
  let root ← convertRulesets env request.enableRuleGenerator (withGroups groups root)
  mergeRules request.extraRules root

variable {env} {request : StashRequest} {root after : Entries}

theorem sequenceOf_setField_self (key : Text) (items : List YamlNode) (entries : Entries) :
    sequenceOf (setField key (.sequence items) entries) key = items := by
  rw [sequenceOf, field_setField_self (by simp)]
  rfl

theorem sequenceOf_congr {key : Text} (same : field root key = field after key) : sequenceOf root key = sequenceOf after key := by
  rw [sequenceOf, same, sequenceOf]

theorem field_convertRulesets {enabled : Bool} (converted : convertRulesets env enabled root = .ok after) {key : Text}
    (noRules : key ≠ chars "rules") (noProviders : key ≠ chars "rule-providers") : field after key = field root key := by
  unfold convertRulesets at converted
  cases enabled with
  | false =>
    obtain rfl : root = after := Except.ok.inj converted
    rfl
  | true =>
    cases made : env.rulesetToStash root with
    | error error => simp [made] at converted
    | ok parts =>
      rw [if_pos rfl, made] at converted
      obtain rfl := Except.ok.inj converted
      rw [field_setField_ne noProviders, field_setField_ne noRules]

theorem field_mergeRules {extra : ExtraRules} (merged : mergeRules extra root = .ok after) {key : Text}
    (noRules : key ≠ chars "rules") : field after key = field root key := by
  unfold mergeRules at merged
  by_cases none : extra.userPrepend = [] ∧ extra.prepend = [] ∧ extra.append = []
  · rw [if_pos none] at merged
    rw [Except.ok.inj merged]
  · simp only [if_neg none, guard_eq_ok_iff] at merged
    rw [← Except.ok.inj merged.2, field_setField_ne noRules]

structure Assembled (env : StashEnv) (request : StashRequest) (root base : Entries) (planned : PlannedNames)
    (groups : Option (List YamlNode)) : Prop where
  read : request.base = some (.map base)
  right : planned.Right base (request.customGroups.map fun group => group.name)
  proxies : sequenceOf root (chars "proxies") =
    sequenceOf base (chars "proxies") ++ (emittedOf request planned).map Prod.fst
  documentGroups : sequenceOf root (chars "proxy-groups") = groups.getD (sequenceOf base (chars "proxy-groups"))
  built : ∃ updated, sequenceOf updated (chars "proxy-groups") = sequenceOf base (chars "proxy-groups") ∧
    stashGroups env.groups updated request.customGroups request.providers ((emittedOf request planned).map Prod.snd) = .ok groups

theorem assembled_of_ok (done : assembleStash env request = .ok root) : ∃ base planned groups, Assembled env request root base planned groups := by
  simp only [assembleStash, bind_eq_ok_iff] at done
  obtain ⟨base, read, planned, plan, providers, _, groups, built, converted, convert, merge⟩ := done
  have rooted : request.base = some (.map base) := by
    unfold baseRoot at read
    cases given : request.base with
    | none => simp [given] at read
    | some node => cases node <;> simp_all
  have kept : ∀ {key : Text}, key ≠ chars "rules" → key ≠ chars "rule-providers" → field root key = field (withGroups groups
      (setField (chars "proxy-providers") (.map providers) (setField (chars "proxies")
        (.sequence (sequenceOf base (chars "proxies") ++ (emittedOf request planned).map Prod.fst)) base))) key := by
    intro key noRules noProviders
    rw [field_mergeRules merge noRules, field_convertRulesets convert noRules noProviders]
  refine ⟨base, planned, groups, rooted, planNames_right plan, ?_, ?_, _, ?_, built⟩
  · rw [sequenceOf_congr (kept (by decide) (by decide))]
    cases groups with
    | none =>
      rw [withGroups, sequenceOf_congr (field_setField_ne (by decide) _ _), sequenceOf_setField_self]
    | some groups =>
      rw [withGroups, sequenceOf_congr (field_setField_ne (by decide) _ _), sequenceOf_congr (field_setField_ne (by decide) _ _),
        sequenceOf_setField_self]
  · rw [sequenceOf_congr (kept (by decide) (by decide))]
    cases groups with
    | none =>
      rw [withGroups, sequenceOf_congr (field_setField_ne (by decide) _ _), sequenceOf_congr (field_setField_ne (by decide) _ _)]
      rfl
    | some groups => exact sequenceOf_setField_self _ _ _
  · rw [sequenceOf_congr (field_setField_ne (by decide) _ _), sequenceOf_congr (field_setField_ne (by decide) _ _)]

end Assembly

end SubConverter.Generator
