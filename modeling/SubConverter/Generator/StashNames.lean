import SubConverter.Generator.StashReferences

set_option autoImplicit false

namespace SubConverter.Generator

open Handler (Node)

section EmittedNames

variable {appendProxyType : Bool} {used : List Text} {name : Text} {nodes : List StashNode}

def Unnumbered (name : Text) : Prop := ∀ (remark : Text) (number : Nat), name ≠ remark ++ ' ' :: decimal number

theorem unnumbered_of_no_blank (clean : ' ' ∉ name) : Unnumbered name := by
  rintro remark number rfl
  exact clean (by simp)

theorem processRemark_eq_iff {remark : Text} (unnumbered : Unnumbered name) :
    processRemark remark used = name ↔ remark = name ∧ name ∉ used := by
  constructor
  · intro same
    rcases @processRemark_cases used remark with plain | ⟨number, numbered⟩
    · exact ⟨plain.symm.trans same, same ▸ processRemark_not_mem⟩
    · exact absurd (same.symm.trans numbered) (unnumbered remark number)
  · rintro ⟨rfl, free⟩
    exact processRemark_of_not_mem free

theorem mem_emittedNames_iff (some : name ≠ []) (unnumbered : Unnumbered name) :
    name ∈ emittedNames (emitNodes appendProxyType nodes used) ↔
      name ∉ used ∧ ∃ node ∈ nodes, node.body.isSome ∧ node.spelled appendProxyType = name := by
  induction nodes generalizing used with
  | nil => simp [emittedNames, emitNodes]
  | cons node rest ih =>
    have given : processRemark (node.spelled appendProxyType) used = name ↔ node.spelled appendProxyType = name ∧ name ∉ used :=
      processRemark_eq_iff unnumbered
    rw [emitNodes_cons, List.exists_mem_cons_iff]
    cases built : buildStashNode (processRemark (node.spelled appendProxyType) used) node with
    | none =>
      have notHere : name ∉ used → ¬(node.body.isSome ∧ node.spelled appendProxyType = name) := by
        rintro free ⟨body, same⟩
        obtain ⟨entries, present⟩ := Option.isSome_iff_exists.mp body
        simp [buildStashNode, given.mpr ⟨same, free⟩, some, present] at built
      simp only [ih]
      constructor
      · rintro ⟨free, later⟩
        exact ⟨free, .inr later⟩
      · rintro ⟨free, here | later⟩
        · exact absurd here (notHere free)
        · exact ⟨free, later⟩
    | some item =>
      obtain ⟨_, entries, body, _⟩ := buildStashNode_eq_some_iff.mp built
      simp only [emittedNames, List.map_cons, List.mem_cons] at ih ⊢
      rw [ih]
      constructor
      · rintro (same | ⟨free, later⟩)
        · obtain ⟨called, free⟩ := given.mp same.symm
          exact ⟨free, .inl ⟨by simp [body], called⟩⟩
        · simp only [List.mem_cons, not_or] at free
          exact ⟨free.2, .inr later⟩
      · rintro ⟨free, here | later⟩
        · exact .inl (given.mpr ⟨here.2, free⟩).symm
        · by_cases same : name = processRemark (node.spelled appendProxyType) used
          · exact .inl same
          · exact .inr ⟨by simp [same, free], later⟩

theorem emitNodes_eq_nil_iff (clean : [] ∉ used) : emitNodes appendProxyType nodes used = [] ↔
    ∀ node ∈ nodes, node.body.isSome → node.spelled appendProxyType = [] := by
  induction nodes with
  | nil => simp [emitNodes]
  | cons node rest ih =>
    rw [emitNodes_cons, List.forall_mem_cons, ← ih]
    cases built : buildStashNode (processRemark (node.spelled appendProxyType) used) node with
    | none =>
      have empty : node.body.isSome → node.spelled appendProxyType = [] := by
        intro body
        obtain ⟨entries, present⟩ := Option.isSome_iff_exists.mp body
        by_contra some
        have named : processRemark (node.spelled appendProxyType) used ≠ [] := by
          rcases @processRemark_cases used (node.spelled appendProxyType) with plain | ⟨number, numbered⟩
          · rwa [plain]
          · simp [numbered]
        simp [buildStashNode, named, present] at built
      exact ⟨fun rest => ⟨empty, rest⟩, And.right⟩
    | some item =>
      obtain ⟨named, entries, body, _⟩ := buildStashNode_eq_some_iff.mp built
      have called : node.spelled appendProxyType ≠ [] := by
        intro empty
        rw [empty, processRemark_of_not_mem clean] at named
        exact named rfl
      simp [body, called]

end EmittedNames

section FinalGroups

variable {env : GroupEnv} {custom : List StashGroupConfig} {providers : List StashProxyProvider} {emitted : List Node}

theorem name_entry (name : Text) (rest : Entries) : (YamlNode.map (entry "name" name :: rest)).name? = some name := by
  simp [YamlNode.name?, YamlNode.field?, YamlNode.entries?, field, entry, YamlNode.text?]

theorem field_extendMembers {key other : Text} (different : other ≠ key) (added : List Text) (entries : Entries) :
    field (extendMembers key added entries) other = field entries other := by
  unfold extendMembers
  by_cases nothing : newNames added ((sequenceOf entries key).filterMap YamlNode.text?) = []
  · simp [nothing]
  · simp [nothing, field_setField_ne different]

theorem name_attachMembers (members uses : List Text) (group : YamlNode) : (attachMembers members uses group).name? = group.name? := by
  have kept : ∀ entries : Entries,
      field (extendMembers (chars "use") uses (extendMembers (chars "proxies") members entries)) (chars "name") =
        field entries (chars "name") := by
    intro entries
    rw [field_extendMembers (by decide), field_extendMembers (by decide)]
  have attached : (attachMembers members uses group).entries? = some (extendMembers (chars "use") uses
      (extendMembers (chars "proxies") members (group.entries?.getD []))) := rfl
  cases entries : group.entries? with
  | none =>
    have empty : field [] (chars "name") = none := rfl
    simp [YamlNode.name?, YamlNode.field?, attached, kept, entries, empty]
  | some list => simp [YamlNode.name?, YamlNode.field?, attached, kept, entries]

theorem names_of_attachEntry {members uses : List Text} {groups result : List YamlNode}
    (attached : attachEntry members uses groups = .ok result) : result.map YamlNode.name? =
      groups.map YamlNode.name? ++ if some entryName ∈ groups.map YamlNode.name? then [] else [some entryName] := by
  induction groups generalizing result with
  | nil =>
    obtain rfl := Except.ok.inj attached
    simp [entryGroup, name_entry]
  | cons group rest ih =>
    rw [attachEntry] at attached
    by_cases here : group.name? = some entryName
    · rw [if_pos here] at attached
      by_cases select : (group.field? (chars "type")).bind YamlNode.text? = some (chars "select")
      · rw [if_pos select] at attached
        obtain rfl := Except.ok.inj attached
        simp [name_attachMembers, here]
      · simp [select] at attached
    · rw [if_neg here, map_eq_ok_iff] at attached
      obtain ⟨others, further, rfl⟩ := attached
      simp [ih further, Ne.symm here]

theorem names_of_customGroups {preferred : PreferredEntry} {result : List YamlNode × PreferredEntry}
    (made : customGroups env emitted providers custom preferred = .ok result) :
    result.1.map YamlNode.name? = custom.map fun group => some group.name := by
  induction custom generalizing preferred result with
  | nil =>
    obtain rfl := Except.ok.inj made
    rfl
  | cons group rest ih =>
    simp only [customGroups, bind_eq_ok_iff] at made
    obtain ⟨remote, _, ⟨items, entry⟩, others, same⟩ := made
    obtain rfl := Except.ok.inj same
    simp [ih others, groupItem, name_entry]

def AddsEntry (baseGroups custom : List Text) (anything : Prop) : Prop :=
  entryName ∉ custom ∧ (custom = [] → entryName ∉ baseGroups ∧ anything)

theorem names_of_stashGroups {root : Entries} {groups : Option (List YamlNode)} {baseGroups : List Text}
    (based : (sequenceOf root (chars "proxy-groups")).map YamlNode.name? = baseGroups.map some)
    (made : stashGroups env root custom providers emitted = .ok groups) :
    ∃ own : List Text, (own = if custom = [] then baseGroups else custom.map fun group => group.name) ∧
      (AddsEntry baseGroups (custom.map fun group => group.name) (emitted ≠ [] ∨ providers ≠ []) ∧
          (groups.getD (sequenceOf root (chars "proxy-groups"))).map YamlNode.name? = (own ++ [entryName]).map some ∨
        ¬AddsEntry baseGroups (custom.map fun group => group.name) (emitted ≠ [] ∨ providers ≠ []) ∧
          (groups.getD (sequenceOf root (chars "proxy-groups"))).map YamlNode.name? = own.map some) := by
  refine ⟨_, rfl, ?_⟩
  unfold stashGroups at made
  by_cases none : custom = []
  · subst none
    rw [if_pos rfl] at made
    by_cases nothing : emitted = [] ∧ providers = []
    · rw [if_pos nothing] at made
      obtain rfl := Except.ok.inj made
      exact .inr ⟨by simp [AddsEntry, nothing], by simpa using based⟩
    · rw [if_neg nothing, map_eq_ok_iff] at made
      obtain ⟨result, attached, rfl⟩ := made
      have names := names_of_attachEntry attached
      rw [based] at names
      have some : emitted ≠ [] ∨ providers ≠ [] := by
        by_cases empty : emitted = []
        · exact .inr fun none => nothing ⟨empty, none⟩
        · exact .inl empty
      by_cases known : entryName ∈ baseGroups
      · exact .inr ⟨by simp [AddsEntry, known], by simpa [known] using names⟩
      · exact .inl ⟨by simp [AddsEntry, known, some], by simpa [known] using names⟩
  · simp only [if_neg none, bind_eq_ok_iff] at made
    obtain ⟨⟨items, preferred⟩, loop, made⟩ := made
    have names : items.map YamlNode.name? = (custom.map fun group => group.name).map some := by
      rw [List.map_map]
      exact names_of_customGroups loop
    by_cases own : (custom.any fun group => group.name = entryName) = true
    · rw [if_pos own] at made
      obtain rfl := Except.ok.inj made
      have known : entryName ∈ custom.map fun group => group.name := by simpa using own
      exact .inr ⟨fun adds => adds.1 known, by simpa [none] using names⟩
    · simp only [if_neg own, guard_eq_ok_iff] at made
      obtain rfl := Except.ok.inj made.2
      have unknown : entryName ∉ custom.map fun group => group.name := by simpa using own
      refine .inl ⟨⟨unknown, by simp [none]⟩, ?_⟩
      simp [none, names, entryGroup, name_entry]

end FinalGroups

section Apart

variable {env : StashEnv} {request : StashRequest} {root base : Entries} {planned : PlannedNames} {groups : Option (List YamlNode)}

def GroupsApart (root : Entries) : Prop :=
  ∀ group ∈ sequenceOf root (chars "proxy-groups"), ∀ name, group.name? = some name →
    name ∉ builtInPolicyNames ∧ ∀ proxy ∈ sequenceOf root (chars "proxies"), proxy.name? ≠ some name

def StashRequest.baseEntries (request : StashRequest) : Entries := (request.base.bind YamlNode.entries?).getD []

def namesOf (items : List YamlNode) : List Text := items.filterMap YamlNode.name?

def StashRequest.baseGroupNames (request : StashRequest) : List Text :=
  namesOf (sequenceOf request.baseEntries (chars "proxy-groups"))

def StashRequest.baseProxyNames (request : StashRequest) : List Text := namesOf (sequenceOf request.baseEntries (chars "proxies"))

def StashRequest.Calls (request : StashRequest) (name : Text) : Prop :=
  ∃ node ∈ request.nodes, node.body.isSome ∧ node.spelled request.appendProxyType = name

def StashRequest.AddsEntry (request : StashRequest) : Prop :=
  SubConverter.Generator.AddsEntry request.baseGroupNames (request.customGroups.map fun group => group.name)
    ((∃ name ≠ [], request.Calls name) ∨ request.providers ≠ [])

def StashRequest.EntryIsFree (request : StashRequest) : Prop :=
  request.AddsEntry → entryName ∉ request.baseProxyNames ∧
    (entryName ∈ request.baseGroupNames ∨ ¬request.Calls entryName)

theorem namesOf_eq {items : List YamlNode} {names : List Text} (read : items.map YamlNode.name? = names.map some) :
    namesOf items = names := by
  have sameNames : items.filterMap YamlNode.name? = (items.map YamlNode.name?).filterMap id := by rw [List.filterMap_map]; rfl
  rw [namesOf, sameNames, read]
  simp

theorem groupsApart_iff_of_names {proxies groups : List Text}
    (ofProxies : (sequenceOf root (chars "proxies")).map YamlNode.name? = proxies.map some)
    (ofGroups : (sequenceOf root (chars "proxy-groups")).map YamlNode.name? = groups.map some) :
    GroupsApart root ↔ ∀ name ∈ groups, name ∉ builtInPolicyNames ∧ name ∉ proxies := by
  have group : ∀ name, (∃ group ∈ sequenceOf root (chars "proxy-groups"), group.name? = some name) ↔ name ∈ groups := by
    intro name
    rw [← List.mem_map, ofGroups]
    simp
  have proxy : ∀ name, (∃ proxy ∈ sequenceOf root (chars "proxies"), proxy.name? = some name) ↔ name ∈ proxies := by
    intro name
    rw [← List.mem_map, ofProxies]
    simp
  constructor
  · intro apart name known
    obtain ⟨item, there, named⟩ := (group name).mpr known
    obtain ⟨notBuiltIn, other⟩ := apart item there name named
    refine ⟨notBuiltIn, fun taken => ?_⟩
    obtain ⟨proxyItem, inside, same⟩ := (proxy name).mpr taken
    exact other proxyItem inside same
  · intro apart item there name named
    obtain ⟨notBuiltIn, free⟩ := apart name ((group name).mp ⟨item, there, named⟩)
    exact ⟨notBuiltIn, fun proxyItem inside same => free ((proxy name).mp ⟨proxyItem, inside, same⟩)⟩

theorem groupsApart_iff (done : assembleStash env request = .ok root) : GroupsApart root ↔ request.EntryIsFree := by
  obtain ⟨base, planned, groups, assembled⟩ := assembled_of_ok done
  obtain ⟨updated, same, made⟩ := assembled.built
  have right := assembled.right
  have baseEntries : request.baseEntries = base := by simp [StashRequest.baseEntries, assembled.read, YamlNode.entries?]
  have baseGroups : request.baseGroupNames = planned.groups := by
    rw [StashRequest.baseGroupNames, baseEntries, namesOf_eq right.groups]
  have baseProxies : request.baseProxyNames = planned.proxies := by
    rw [StashRequest.baseProxyNames, baseEntries, namesOf_eq right.proxies]
  have emitted := names_of_assembled assembled
  have updatedGroups : (sequenceOf updated (chars "proxy-groups")).map YamlNode.name? = planned.groups.map some := by
    rw [same, right.groups]
  obtain ⟨own, ownNames, final⟩ := names_of_stashGroups updatedGroups made
  -- The names of the other groups are reserved before any node gets its name.
  have ownFree : ∀ name ∈ own, name ∉ builtInPolicyNames ∧
      name ∉ planned.proxies ++ emittedNames (emittedOf request planned) := by
    have fresh := (@emittedNames_nodup request.appendProxyType request.nodes planned.reserved).2
    intro name member
    have reserved : name ∈ planned.groups ++ planned.custom ∧ name ∉ builtInPolicyNames ∧ name ∉ planned.proxies := by
      by_cases none : request.customGroups = []
      · rw [ownNames, if_pos none] at member
        exact ⟨List.mem_append_left _ member, (right.ownGroups name member).2⟩
      · rw [ownNames, if_neg none, ← right.custom] at member
        exact ⟨List.mem_append_right _ member, (right.ownCustom name member).2⟩
    refine ⟨reserved.2.1, fun taken => ?_⟩
    rcases List.mem_append.mp taken with old | new
    · exact reserved.2.2 old
    · exact fresh name new (by simp [PlannedNames.reserved, List.mem_append.mp reserved.1])
  have adds : request.AddsEntry ↔ AddsEntry planned.groups (request.customGroups.map fun group => group.name)
      ((emittedOf request planned).map Prod.snd ≠ [] ∨ request.providers ≠ []) := by
    have unnamed : [] ∉ planned.reserved := by
      simp only [PlannedNames.reserved, List.mem_append, not_or]
      exact ⟨by decide, ⟨fun old => (right.ownProxies _ old).1 rfl, fun old => (right.ownGroups _ old).1 rfl⟩,
        fun old => (right.ownCustom _ old).1 rfl⟩
    have some : (emittedOf request planned).map Prod.snd ≠ [] ↔ ∃ name ≠ [], request.Calls name := by
      rw [ne_eq, List.map_eq_nil_iff, emittedOf, emitNodes_eq_nil_iff unnamed]
      constructor
      · intro someNode
        push Not at someNode
        obtain ⟨node, member, body, named⟩ := someNode
        exact ⟨_, named, node, member, body, rfl⟩
      · rintro ⟨name, named, node, member, body, rfl⟩ empty
        exact named (empty node member body)
    rw [StashRequest.AddsEntry, baseGroups, some]
  have called : entryName ∉ request.customGroups.map (fun group => group.name) → entryName ∉ planned.proxies →
      (entryName ∉ emittedNames (emittedOf request planned) ↔ entryName ∈ planned.groups ∨ ¬request.Calls entryName) := by
    intro noCustom noProxy
    have given := @mem_emittedNames_iff request.appendProxyType planned.reserved entryName request.nodes (by decide)
      (unnumbered_of_no_blank (by decide))
    have notBuiltIn : entryName ∉ builtInPolicyNames := by decide
    rw [← right.custom] at noCustom
    rw [emittedOf, given]
    simp only [PlannedNames.reserved, List.mem_append, notBuiltIn, noProxy, noCustom, false_or, or_false]
    exact Decidable.not_and_iff_not_or_not.trans (by rw [Decidable.not_not]; rfl)
  rw [StashRequest.EntryIsFree, adds, baseGroups, baseProxies]
  rcases final with ⟨added, names⟩ | ⟨notAdded, names⟩
  · rw [same, ← assembled.documentGroups] at names
    rw [groupsApart_iff_of_names emitted names]
    have notBuiltIn : entryName ∉ builtInPolicyNames := by decide
    constructor
    · intro apart _
      have free := (apart entryName (by simp)).2
      simp only [List.mem_append, not_or] at free
      exact ⟨free.1, (called added.1 free.1).mp free.2⟩
    · intro free name member
      obtain ⟨noProxy, unused⟩ := free added
      rcases List.mem_append.mp member with mine | entry
      · exact ownFree name mine
      · obtain rfl := List.mem_singleton.mp entry
        exact ⟨notBuiltIn, by simp [noProxy, (called added.1 noProxy).mpr unused]⟩
  · rw [same, ← assembled.documentGroups] at names
    rw [groupsApart_iff_of_names emitted names]
    exact ⟨fun _ added => absurd added notAdded, fun _ => ownFree⟩

theorem groupsApart_iff_twoNodes : ∃ root, assembleStash plainStash twoNodes = .ok root ∧ GroupsApart root := by
  have made : ∃ root, assembleStash plainStash twoNodes = .ok root := ⟨_, rfl⟩
  obtain ⟨root, done⟩ := made
  have uncalled : ¬twoNodes.Calls entryName := by
    rintro ⟨node, member, _, called⟩
    have other : ∀ node ∈ twoNodes.nodes, node.spelled twoNodes.appendProxyType ≠ entryName := by decide
    exact other node member called
  have free : twoNodes.EntryIsFree := fun _ => ⟨by decide, .inr uncalled⟩
  exact ⟨root, done, (groupsApart_iff done).mpr free⟩

def calledProxy : StashRequest :=
  { base := some (.map []), nodes := [plainNode entryName],
    customGroups := [{ name := chars "Auto", proxies := [chars "Proxy"] }] }

theorem proxyToStash_calledProxy : (∃ root, assembleStash plainStash calledProxy = .ok root ∧ ¬GroupsApart root) ∧
    proxyToStash plainStash calledProxy = .error .referenceGraph := by
  have made : ∃ root, assembleStash plainStash calledProxy = .ok root := ⟨_, rfl⟩
  obtain ⟨root, done⟩ := made
  refine ⟨⟨root, done, ?_⟩, rfl⟩
  have called : calledProxy.Calls entryName := ⟨plainNode entryName, by simp [calledProxy], rfl, by decide⟩
  have adds : calledProxy.AddsEntry := ⟨by decide, fun none => absurd none (by simp [calledProxy])⟩
  rw [groupsApart_iff done]
  intro free
  rcases (free adds).2 with reserved | uncalled
  · exact absurd reserved (by decide)
  · exact uncalled called

end Apart

end SubConverter.Generator
