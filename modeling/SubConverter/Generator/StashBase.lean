import SubConverter.Lib.FreshName
import SubConverter.Lib.Results
import SubConverter.Generator.GroupSelection
import SubConverter.Handler.ProviderNames

set_option autoImplicit false

namespace SubConverter.Generator

open Handler (Node toLower)

section Documents

inductive YamlNode where
  | null
  | scalar (text : Text)
  | sequence (items : List YamlNode)
  | map (entries : List (YamlNode × YamlNode))

abbrev Entries := List (YamlNode × YamlNode)

def YamlNode.text? : YamlNode → Option Text
  | .scalar text => some text
  | _ => none

def YamlNode.items? : YamlNode → Option (List YamlNode)
  | .sequence items => some items
  | _ => none

def YamlNode.entries? : YamlNode → Option Entries
  | .map entries => some entries
  | _ => none

-- A field that is null counts as one that is missing.
def field (entries : Entries) (key : Text) : Option YamlNode :=
  match entries.find? fun entry => entry.1.text? = some key with
  | some (_, .null) => none
  | some (_, value) => some value
  | none => none

def setField (key : Text) (value : YamlNode) : Entries → Entries
  | [] => [(.scalar key, value)]
  | entry :: rest => if entry.1.text? = some key then (entry.1, value) :: rest else entry :: setField key value rest

def YamlNode.field? (node : YamlNode) (key : Text) : Option YamlNode := node.entries?.bind fun entries => field entries key

def YamlNode.name? (node : YamlNode) : Option Text := (node.field? (chars "name")).bind YamlNode.text?

def texts? (items : List YamlNode) : Option (List Text) := items.mapM YamlNode.text?

-- What a list of texts is in a document.
def textSequence (texts : List Text) : YamlNode := .sequence (texts.map .scalar)

def sequenceOf (root : Entries) (key : Text) : List YamlNode := ((field root key).bind YamlNode.items?).getD []

def mappingOf (root : Entries) (key : Text) : Entries := ((field root key).bind YamlNode.entries?).getD []

theorem field_setField_self {key : Text} {value : YamlNode} (present : value ≠ .null) (entries : Entries) :
    field (setField key value entries) key = some value := by
  induction entries with
  | nil => cases value <;> simp_all [setField, field, YamlNode.text?]
  | cons entry rest ih =>
    by_cases here : entry.1.text? = some key
    · cases value <;> simp_all [setField, field]
    · simpa [setField, field, here] using ih

theorem field_setField_ne {key other : Text} (different : other ≠ key) (value : YamlNode) (entries : Entries) :
    field (setField key value entries) other = field entries other := by
  induction entries with
  | nil => simp [setField, field, YamlNode.text?, Ne.symm different]
  | cons entry rest ih =>
    by_cases here : entry.1.text? = some key
    · have elsewhere : ¬(some key = some other) := by simpa using Ne.symm different
      simp [setField, field, here, elsewhere]
    · by_cases there : entry.1.text? = some other
      · simp [setField, field, there, different]
      · simpa [setField, field, here, there] using ih

end Documents

section Errors

inductive StashError where
  | parse
  | notMapping
  | fieldType (key expected : Text)
  | baseSchema (field : Text)
  | providerConflict
  | entryNotSelect
  | groupType
  | groupOptions
  | groupSelectors
  | relayProvider
  | entryCycle
  | ruleset (error : Text)
  | ruleLimit
  | referenceGraph
deriving DecidableEq, Repr

/-- `external_rule_error`, its English line. -/
def StashError.message : StashError → Text
  | .parse => chars "Invalid request: the selected Stash base template is not valid YAML."
  | .notMapping => chars "Invalid request: the selected Stash base template must be a YAML mapping."
  | .fieldType key expected =>
    chars "Invalid request: Stash base field \x27" ++ key ++ chars "\x27 must be " ++ expected ++ chars "."
  | .baseSchema field => chars "Invalid request: the selected Stash base has an invalid \x27" ++ field ++ chars "\x27 entry."
  | .providerConflict =>
    chars "Invalid request: a generated Stash proxy-provider name or path conflicts with the selected base template."
  | .entryNotSelect =>
    chars "Invalid request: the built-in Stash \x27Proxy\x27 group must be a select group before generated nodes or providers can be attached."
  | .groupType =>
    chars "Invalid request: the selected Stash target cannot represent a Smart or SSID custom proxy group without changing its semantics."
  | .groupOptions =>
    chars "Invalid request: the selected Stash target cannot represent one or more enabled custom proxy-group options."
  | .groupSelectors =>
    chars "Invalid request: a Stash proxy group contains multiple remote selectors with different filters."
  | .relayProvider => chars "Invalid request: a Stash relay group cannot preserve the order of a dynamic proxy-provider."
  | .entryCycle =>
    chars "Invalid request: adding the required Stash \x27Proxy\x27 entry group would create a proxy-group cycle."
  | .ruleset error => error
  | .ruleLimit => chars "Invalid request: the final Stash rule count exceeds max_allowed_rules."
  | .referenceGraph =>
    chars "Invalid request: the final Stash configuration contains a dangling or cyclic policy reference."

end Errors

section Base

def builtInPolicyNames : List Text := [chars "DIRECT", chars "REJECT", chars "REJECT-DROP", chars "PASS"]

def requireCollectionType (root : Entries) (key : Text) (fits : YamlNode → Bool) (expected : Text) : Except StashError Unit :=
  match field root key with
  | none => .ok ()
  | some value => if fits value then .ok () else .error (.fieldType key expected)

def isSequence (node : YamlNode) : Bool := node.items?.isSome

def isMap (node : YamlNode) : Bool := node.entries?.isSome

def requireCollections (root : Entries) : Except StashError Unit := do
  requireCollectionType root (chars "proxies") isSequence (chars "a YAML sequence")
  requireCollectionType root (chars "proxy-providers") isMap (chars "a YAML mapping")
  requireCollectionType root (chars "proxy-groups") isSequence (chars "a YAML sequence")
  requireCollectionType root (chars "rules") isSequence (chars "a YAML sequence")

def ensure (condition : Bool) (error : StashError) : Except StashError Unit := if condition then .ok () else .error error

def areScalars (items : List YamlNode) : Bool := items.all fun item => item.text?.isSome

def isSubRule (entry : YamlNode × YamlNode) : Bool :=
  entry.1.text?.isSome && (entry.2.items?.map areScalars).getD false

def checkRules (root : Entries) : Except StashError Unit := do
  ensure (areScalars (sequenceOf root (chars "rules"))) (.baseSchema (chars "rules"))
  match field root (chars "sub-rules") with
  | none => .ok ()
  | some value => ensure ((value.entries?.map fun entries => entries.all isSubRule).getD false) (.baseSchema (chars "sub-rules"))

-- The names so far are those of the earlier entries.
def baseProxyNames : List YamlNode → List Text → Except StashError (List Text)
  | [], names => .ok names
  | item :: rest, names =>
    match item.name? with
    | none => .error (.baseSchema (chars "proxies"))
    | some name =>
      if name = [] ∨ name ∈ builtInPolicyNames ∨ name ∈ names then .error (.baseSchema (chars "proxies.name"))
      else baseProxyNames rest (names ++ [name])

-- A member list is missing or a sequence of scalars.
def isMemberList (group : YamlNode) (key : Text) : Bool :=
  match group.field? key with
  | none => true
  | some value => (value.items?.map areScalars).getD false

def baseGroupNames (proxyNames : List Text) : List YamlNode → List Text → Except StashError (List Text)
  | [], names => .ok names
  | group :: rest, names =>
    match group.name?, (group.field? (chars "type")).bind YamlNode.text? with
    | some name, some _ =>
      if (group.field? (chars "proxies")).any (! isSequence ·) ∨ (group.field? (chars "use")).any (! isSequence ·) then
        .error (.baseSchema (chars "proxy-groups"))
      else if name = [] ∨ name ∈ builtInPolicyNames ∨ name ∈ proxyNames ∨ name ∈ names then
        .error (.baseSchema (chars "proxy-groups.name"))
      else if isMemberList group (chars "proxies") && isMemberList group (chars "use") then
        baseGroupNames proxyNames rest (names ++ [name])
      else .error (.baseSchema (chars "proxy-groups"))
    | _, _ => .error (.baseSchema (chars "proxy-groups"))

def customGroupNames (proxyNames : List Text) : List Text → List Text → Except StashError (List Text)
  | [], names => .ok names
  | name :: rest, names =>
    if name = [] ∨ name ∈ builtInPolicyNames ∨ name ∈ proxyNames ∨ name ∈ names then
      .error (.baseSchema (chars "custom proxy-group name"))
    else customGroupNames proxyNames rest (names ++ [name])

def Taken (free : Text → Prop) (given : List (Option Text)) (names all : List Text) : Prop :=
  ∃ new, all = names ++ new ∧ given = new.map some ∧ (names.Nodup → all.Nodup) ∧ ∀ name ∈ new, free name

section Taken

variable {free : Text → Prop} {given : List (Option Text)} {names all : List Text} {name : Text}

theorem Taken.nil (free : Text → Prop) (names : List Text) : Taken free [] names names :=
  ⟨[], by simp, rfl, id, by simp⟩

theorem Taken.cons (here : free name) (new : name ∉ names) (rest : Taken free given (names ++ [name]) all) :
    Taken free (some name :: given) names all := by
  obtain ⟨others, rfl, rfl, distinct, frees⟩ := rest
  refine ⟨name :: others, by simp, rfl, ?_, List.forall_mem_cons.mpr ⟨here, frees⟩⟩
  intro before
  apply distinct
  rw [List.nodup_append_comm]
  exact List.nodup_cons.mpr ⟨new, before⟩

theorem taken_baseProxyNames {items : List YamlNode} (taken : baseProxyNames items names = .ok all) :
    Taken (fun name => name ≠ [] ∧ name ∉ builtInPolicyNames) (items.map YamlNode.name?) names all := by
  induction items generalizing names with
  | nil =>
    obtain rfl : names = all := Except.ok.inj taken
    exact .nil _ names
  | cons item rest ih =>
    cases found : item.name? with
    | none => simp [baseProxyNames, found] at taken
    | some name =>
      simp only [baseProxyNames, found, guard_eq_ok_iff, not_or] at taken
      rw [List.map_cons, found]
      exact .cons ⟨taken.1.1, taken.1.2.1⟩ taken.1.2.2 (ih taken.2)

theorem taken_baseGroupNames {proxyNames : List Text} {groups : List YamlNode}
    (taken : baseGroupNames proxyNames groups names = .ok all) :
    Taken (fun name => name ≠ [] ∧ name ∉ builtInPolicyNames ∧ name ∉ proxyNames) (groups.map YamlNode.name?) names all := by
  induction groups generalizing names with
  | nil =>
    obtain rfl : names = all := Except.ok.inj taken
    exact .nil _ names
  | cons group rest ih =>
    cases found : group.name? with
    | none => simp [baseGroupNames, found] at taken
    | some name =>
      cases type : (group.field? (chars "type")).bind YamlNode.text? with
      | none => simp [baseGroupNames, found, type] at taken
      | some _ =>
        simp only [baseGroupNames, found, type, guard_eq_ok_iff, not_or] at taken
        obtain ⟨_, free, onward⟩ := taken
        by_cases lists : (isMemberList group (chars "proxies") && isMemberList group (chars "use")) = true
        · rw [if_pos lists] at onward
          rw [List.map_cons, found]
          exact .cons ⟨free.1, free.2.1, free.2.2.1⟩ free.2.2.2 (ih onward)
        · simp [lists] at onward

theorem taken_customGroupNames {proxyNames custom : List Text} (taken : customGroupNames proxyNames custom names = .ok all) :
    Taken (fun name => name ≠ [] ∧ name ∉ builtInPolicyNames ∧ name ∉ proxyNames) (custom.map some) names all := by
  induction custom generalizing names with
  | nil =>
    obtain rfl : names = all := Except.ok.inj taken
    exact .nil _ names
  | cons name rest ih =>
    simp only [customGroupNames, guard_eq_ok_iff, not_or] at taken
    exact .cons ⟨taken.1.1, taken.1.2.1, taken.1.2.2.1⟩ taken.1.2.2.2 (ih taken.2)

end Taken

structure PlannedNames where
  proxies : List Text
  groups : List Text
  custom : List Text
deriving DecidableEq, Repr

def planNames (root : Entries) (custom : List Text) : Except StashError PlannedNames := do
  requireCollections root
  checkRules root
  let proxies ← baseProxyNames (sequenceOf root (chars "proxies")) []
  let groups ← baseGroupNames proxies (sequenceOf root (chars "proxy-groups")) []
  let custom ← customGroupNames proxies custom []
  .ok ⟨proxies, groups, custom⟩

structure PlannedNames.Right (root : Entries) (custom : List Text) (planned : PlannedNames) : Prop where
  proxies : (sequenceOf root (chars "proxies")).map YamlNode.name? = planned.proxies.map some
  groups : (sequenceOf root (chars "proxy-groups")).map YamlNode.name? = planned.groups.map some
  custom : planned.custom = custom
  distinctProxies : planned.proxies.Nodup
  distinctGroups : planned.groups.Nodup
  distinctCustom : planned.custom.Nodup
  ownProxies : ∀ name ∈ planned.proxies, name ≠ [] ∧ name ∉ builtInPolicyNames
  ownGroups : ∀ name ∈ planned.groups, name ≠ [] ∧ name ∉ builtInPolicyNames ∧ name ∉ planned.proxies
  ownCustom : ∀ name ∈ planned.custom, name ≠ [] ∧ name ∉ builtInPolicyNames ∧ name ∉ planned.proxies

theorem planNames_right {root : Entries} {custom : List Text} {planned : PlannedNames}
    (plan : planNames root custom = .ok planned) : planned.Right root custom := by
  simp only [planNames, bind_eq_ok_iff] at plan
  obtain ⟨_, _, _, _, proxies, proxyLoop, groups, groupLoop, names, customLoop, same⟩ := plan
  obtain rfl : PlannedNames.mk proxies groups names = planned := Except.ok.inj same
  obtain ⟨_, rfl, ofProxies, distinctProxies, ownProxies⟩ := taken_baseProxyNames proxyLoop
  obtain ⟨_, rfl, ofGroups, distinctGroups, ownGroups⟩ := taken_baseGroupNames groupLoop
  obtain ⟨_, rfl, ofCustom, distinctCustom, ownCustom⟩ := taken_customGroupNames customLoop
  constructor
  · exact ofProxies
  · exact ofGroups
  · exact (List.map_injective_iff.mpr (Option.some_injective _) ofCustom).symm
  · exact distinctProxies List.nodup_nil
  · exact distinctGroups List.nodup_nil
  · exact distinctCustom List.nodup_nil
  · exact ownProxies
  · exact ownGroups
  · exact ownCustom

def PlannedNames.reserved (planned : PlannedNames) : List Text :=
  builtInPolicyNames ++ (planned.proxies ++ planned.groups ++ planned.custom)

end Base

section Nodes

/-- A node, the name of its type, and what `buildStashNode` writes of it besides its name where Stash can represent it. -/
structure StashNode where
  node : Node
  typeName : Text
  body : Option Entries

def StashNode.spelled (appendProxyType : Bool) (node : StashNode) : Text :=
  (if appendProxyType then '[' :: node.typeName ++ chars "] " ++ node.node.remark else node.node.remark).map fun c =>
    if c = '=' then '-' else c

def remarkCandidate (remark : Text) (count : Nat) : Text := if count = 0 then remark else remark ++ ' ' :: decimal (count + 1)

def processRemark (remark : Text) (usedRemarks : List Text) : Text := freshName id usedRemarks (remarkCandidate remark) 0

def buildStashNode (name : Text) (node : StashNode) : Option YamlNode :=
  if name = [] then none else node.body.map fun entries => .map ((.scalar (chars "name"), .scalar name) :: entries)

-- The nodes of the document with the nodes they stand for.
def emitNodes (appendProxyType : Bool) : List StashNode → List Text → List (YamlNode × Node)
  | [], _ => []
  | node :: rest, usedRemarks =>
    let name := processRemark (node.spelled appendProxyType) usedRemarks
    match buildStashNode name node with
    | none => emitNodes appendProxyType rest usedRemarks
    | some item => (item, { node.node with remark := name }) :: emitNodes appendProxyType rest (name :: usedRemarks)

variable {appendProxyType : Bool} {used : List Text} {remark : Text}

theorem remarkCandidate_injective (remark : Text) : Function.Injective (remarkCandidate remark) := by
  intro m n same
  unfold remarkCandidate at same
  by_cases first : m = 0
  · by_cases second : n = 0
    · omega
    · simp [first, second] at same
  · by_cases second : n = 0
    · simp [first, second] at same
    · simp only [first, second, if_false, List.append_cancel_left_eq, List.cons.injEq, true_and] at same
      have equal := decimal_injective same
      omega

theorem processRemark_not_mem : processRemark remark used ∉ used :=
  @key_freshName_not_mem Text Text _ id used _ (remarkCandidate_injective remark) 0

theorem processRemark_of_not_mem (free : remark ∉ used) : processRemark remark used = remark := by
  obtain ⟨found, same, _, _, earlier, _⟩ := @firstFree_spec Text Text _ id used (remarkCandidate remark) used.length 0
  rw [processRemark, freshName, same]
  by_cases first : found = 0
  · rw [first]
    rfl
  · exact absurd (earlier 0 (Nat.le_refl _) (Nat.pos_of_ne_zero first)) free

theorem processRemark_cases : processRemark remark used = remark ∨
    ∃ number, processRemark remark used = remark ++ ' ' :: decimal number := by
  obtain ⟨found, same, _⟩ := @firstFree_spec Text Text _ id used (remarkCandidate remark) used.length 0
  rw [processRemark, freshName, same, remarkCandidate]
  by_cases first : found = 0
  · exact .inl (if_pos first)
  · exact .inr ⟨found + 1, if_neg first⟩

theorem buildStashNode_eq_some_iff {name : Text} {node : StashNode} {item : YamlNode} : buildStashNode name node = some item ↔
    name ≠ [] ∧ ∃ entries, node.body = some entries ∧ item = .map ((.scalar (chars "name"), .scalar name) :: entries) := by
  unfold buildStashNode
  by_cases empty : name = []
  · simp [empty]
  · simp [empty, eq_comm]

theorem name_of_buildStashNode {name : Text} {node : StashNode} {item : YamlNode} (built : buildStashNode name node = some item) :
    item.name? = some name := by
  obtain ⟨_, entries, _, rfl⟩ := buildStashNode_eq_some_iff.mp built
  simp [YamlNode.name?, YamlNode.field?, YamlNode.entries?, field, YamlNode.text?]

def emittedNames (emitted : List (YamlNode × Node)) : List Text := emitted.map fun entry => entry.2.remark

theorem emitNodes_cons (node : StashNode) (rest : List StashNode) :
    emitNodes appendProxyType (node :: rest) used =
      match buildStashNode (processRemark (node.spelled appendProxyType) used) node with
      | none => emitNodes appendProxyType rest used
      | some item => (item, { node.node with remark := processRemark (node.spelled appendProxyType) used }) ::
          emitNodes appendProxyType rest (processRemark (node.spelled appendProxyType) used :: used) := rfl

theorem name_of_mem_emitNodes {nodes : List StashNode} {entry : YamlNode × Node} (member : entry ∈ emitNodes appendProxyType nodes used) :
    entry.1.name? = some entry.2.remark := by
  induction nodes generalizing used with
  | nil => exact absurd member List.not_mem_nil
  | cons node rest ih =>
    rw [emitNodes_cons] at member
    cases built : buildStashNode (processRemark (node.spelled appendProxyType) used) node with
    | none =>
      rw [built] at member
      exact ih member
    | some item =>
      rw [built] at member
      rcases List.mem_cons.mp member with rfl | later
      · exact name_of_buildStashNode built
      · exact ih later

theorem emittedNames_nodup (nodes : List StashNode) (used : List Text) :
    (emittedNames (emitNodes appendProxyType nodes used)).Nodup ∧
      ∀ name ∈ emittedNames (emitNodes appendProxyType nodes used), name ∉ used := by
  induction nodes generalizing used with
  | nil => simp [emittedNames, emitNodes]
  | cons node rest ih =>
    rw [emitNodes_cons]
    cases built : buildStashNode (processRemark (node.spelled appendProxyType) used) node with
    | none => exact ih used
    | some item =>
      obtain ⟨distinct, fresh⟩ := ih (processRemark (node.spelled appendProxyType) used :: used)
      simp only [emittedNames, List.map_cons, List.nodup_cons, List.forall_mem_cons] at distinct fresh ⊢
      refine ⟨⟨fun again => fresh _ again List.mem_cons_self, distinct⟩, processRemark_not_mem, ?_⟩
      intro name member there
      exact fresh name member (List.mem_cons_of_mem _ there)

end Nodes

end SubConverter.Generator
