import SubConverter.Lib.CycleSearch
import SubConverter.Generator.StashGroups

set_option autoImplicit false

namespace SubConverter.Generator

open Handler (split startsWith toLower toUpper trim trimOf isSpace)

section EmbeddedReferences

def isKindChar (c : Char) : Bool := c.isAlpha || c = '-'

def isReferenceChar (c : Char) : Bool := c ∉ [',', '(', ')']

-- Behind blanks alone the last one of them is the reference.
def referenceName (kind blanks body : Text) : Option ((Text × Text) × Text) :=
  match body.takeWhile isReferenceChar with
  | [] => blanks.getLast?.map fun blank => ((kind, [blank]), body)
  | name => some ((kind, name), body.dropWhile isReferenceChar)

/-- `\s*([A-Za-z-]+)\s*,\s*([^,()]+)` at the start of a text, with the text behind it. -/
def referenceAt (text : Text) : Option ((Text × Text) × Text) :=
  let opened := text.dropWhile isSpace
  let kind := opened.takeWhile isKindChar
  if kind = [] then none
  else
    match (opened.dropWhile isKindChar).dropWhile isSpace with
    | ',' :: rest => referenceName kind (rest.takeWhile isSpace) (rest.dropWhile isSpace)
    | _ => none

-- An expression begins at the start of a line or behind a round bracket.
def referenceFrom (lineStart : Bool) (c : Char) (rest : Text) : Option ((Text × Text) × Text) :=
  (if lineStart then referenceAt (c :: rest) else none) <|> if c = '(' then referenceAt rest else none

def references : Nat → Bool → Text → List (Text × Text)
  | 0, _, _ => []
  | _, _, [] => []
  | rounds + 1, lineStart, c :: rest =>
    match referenceFrom lineStart c rest with
    | some (reference, behind) => reference :: references rounds false behind
    | none => references rounds (c = '\n') rest

def embeddedReferences (rule : Text) : List (Text × Text) := references rule.length true rule

def NamesAt (text kind name : Text) : Prop :=
  ∃ before between after behind, text = before ++ (kind ++ (between ++ ',' :: (after ++ (name ++ behind)))) ∧
    (∀ c ∈ before ++ between ++ after, isSpace c = true) ∧ kind ≠ [] ∧ (∀ c ∈ kind, isKindChar c = true) ∧
    (∀ c ∈ name, isReferenceChar c = true) ∧ (∃ c ∈ name.head?, isSpace c = false) ∧
    ∀ c ∈ behind.head?, isReferenceChar c = false

def Mentions (rule kind name : Text) : Prop :=
  NamesAt rule kind name ∨ ∃ before tail, rule = before ++ '(' :: tail ∧ NamesAt tail kind name

section Scanning

variable {kind name text behind : Text} {reference : Text × Text}

theorem span_of_stop {fits : Char → Bool} {front : Text} (rest : Text) (all : ∀ c ∈ front, fits c = true)
    (stop : ∀ c ∈ rest.head?, fits c = false) : (front ++ rest).takeWhile fits = front ∧ (front ++ rest).dropWhile fits = rest := by
  rw [List.takeWhile_append_of_pos all, List.dropWhile_append_of_pos all]
  cases rest with
  | nil => simp
  | cons c rest =>
    have no : fits c = false := stop c rfl
    simp [no]

theorem kindChar_not_space {c : Char} (blank : isSpace c = true) : isKindChar c = false := by
  simp only [isSpace, List.mem_cons, List.not_mem_nil, or_false, decide_eq_true_eq] at blank
  rcases blank with rfl | rfl | rfl | rfl | rfl | rfl <;> rfl

theorem referenceAt_of_namesAt (there : NamesAt text kind name) : ∃ behind, referenceAt text = some ((kind, name), behind) := by
  obtain ⟨before, between, after, behind, rfl, blanks, some, kinds, chars, ⟨first, head, solid⟩, stop⟩ := there
  simp only [List.mem_append, or_imp, forall_and] at blanks
  obtain ⟨⟨blanks₁, blanks₂⟩, blanks₃⟩ := blanks
  obtain ⟨c, rest, rfl⟩ := List.exists_cons_of_ne_nil some
  obtain ⟨n, more, rfl⟩ : ∃ n more, name = n :: more := List.exists_cons_of_ne_nil (by rintro rfl; simp at head)
  obtain rfl : first = n := by simpa using head.symm
  have solidKind : isSpace c = false := by
    by_contra blank
    have no := kindChar_not_space (by simpa using blank)
    simp [kinds c List.mem_cons_self] at no
  have opened := (span_of_stop ((c :: rest) ++ (between ++ ',' :: (after ++ (first :: more ++ behind)))) blanks₁
    (by simp [solidKind])).2
  have kindEnds : ∀ d ∈ (between ++ ',' :: (after ++ (first :: more ++ behind))).head?, isKindChar d = false := by
    intro d here
    cases between with
    | nil =>
      obtain rfl : ',' = d := by simpa using here
      rfl
    | cons blank others =>
      obtain rfl : blank = d := by simpa using here
      exact kindChar_not_space (blanks₂ blank List.mem_cons_self)
  obtain ⟨taken, dropped⟩ := span_of_stop _ kinds kindEnds
  have comma := (span_of_stop (',' :: (after ++ (first :: more ++ behind))) blanks₂ (by simp [isSpace])).2
  obtain ⟨blanksTaken, blanksDropped⟩ := span_of_stop (first :: more ++ behind) blanks₃ (by simp [solid])
  obtain ⟨nameTaken, nameDropped⟩ := span_of_stop _ chars stop
  refine ⟨behind, ?_⟩
  simp only [referenceAt, opened, taken, dropped, comma, blanksDropped, referenceName, nameTaken, nameDropped]
  simp

theorem bracket_not_mem_takeWhile {fits : Char → Bool} (no : fits '(' = false) (text : Text) : '(' ∉ text.takeWhile fits := by
  intro there
  have fit := List.all_eq_true.mp List.all_takeWhile '(' there
  rw [no] at fit
  cases fit

theorem eq_append_of_referenceName {blanks body : Text} (found : referenceName kind blanks body = some (reference, behind)) :
    ∃ read, body = read ++ behind ∧ '(' ∉ read := by
  unfold referenceName at found
  cases name : body.takeWhile isReferenceChar with
  | nil =>
    rw [name] at found
    obtain ⟨blank, _, same⟩ := Option.map_eq_some_iff.mp found
    obtain ⟨_, rfl⟩ := Prod.mk.inj same
    exact ⟨[], rfl, List.not_mem_nil⟩
  | cons c rest =>
    rw [name] at found
    obtain ⟨_, rfl⟩ := Prod.mk.inj (Option.some_inj.mp found)
    exact ⟨body.takeWhile isReferenceChar, List.takeWhile_append_dropWhile.symm, bracket_not_mem_takeWhile rfl body⟩

theorem eq_append_of_referenceAt (found : referenceAt text = some (reference, behind)) :
    ∃ read, text = read ++ behind ∧ '(' ∉ read ∧ read ≠ [] := by
  unfold referenceAt at found
  simp only at found
  by_cases empty : (text.dropWhile isSpace).takeWhile isKindChar = []
  · simp [empty] at found
  · rw [if_neg empty] at found
    cases mark : ((text.dropWhile isSpace).dropWhile isKindChar).dropWhile isSpace with
    | nil => simp [mark] at found
    | cons c rest =>
      by_cases comma : c = ','
      · subst comma
        rw [mark] at found
        obtain ⟨read, cut, clean⟩ := eq_append_of_referenceName found
        have whole : text = text.takeWhile isSpace ++ ((text.dropWhile isSpace).takeWhile isKindChar ++
            (((text.dropWhile isSpace).dropWhile isKindChar).takeWhile isSpace ++ ',' ::
              (rest.takeWhile isSpace ++ (read ++ behind)))) := by
          rw [← cut, List.takeWhile_append_dropWhile, ← mark, List.takeWhile_append_dropWhile, List.takeWhile_append_dropWhile,
            List.takeWhile_append_dropWhile]
        refine ⟨text.takeWhile isSpace ++ ((text.dropWhile isSpace).takeWhile isKindChar ++
            (((text.dropWhile isSpace).dropWhile isKindChar).takeWhile isSpace ++ ',' :: (rest.takeWhile isSpace ++ read))),
          by simpa only [List.append_assoc, List.cons_append] using whole, ?_, ?_⟩
        · simp only [List.mem_append, List.mem_cons, not_or]
          have spaces : ∀ text : Text, '(' ∉ text.takeWhile isSpace := bracket_not_mem_takeWhile rfl
          exact ⟨spaces _, bracket_not_mem_takeWhile rfl _, spaces _, by decide, spaces _, clean⟩
        · simp [empty]
      · rw [mark] at found
        simp [comma] at found

theorem namesAt_references {rounds : Nat} {lineStart : Bool} {before tail : Text} (enough : text.length ≤ rounds)
    (cut : text = before ++ '(' :: tail) (there : NamesAt tail kind name) : (kind, name) ∈ references rounds lineStart text := by
  induction rounds generalizing lineStart before text with
  | zero => simp [cut] at enough
  | succ rounds ih =>
    obtain ⟨c, rest, rfl⟩ := List.exists_cons_of_ne_nil (show text ≠ [] by simp [cut])
    -- What is read ends before the bracket, so the bracket is still to come.
    have later : ∀ {front read behind : Text}, '(' ∉ read → front ++ '(' :: tail = read ++ behind → behind.length ≤ rounds →
        (kind, name) ∈ references rounds false behind := by
      intro front read behind clean same short
      rcases List.append_eq_append_iff.mp same with ⟨extra, here, onward⟩ | ⟨extra, _, onward⟩
      · cases extra with
        | nil =>
          have same : behind = [] ++ '(' :: tail := onward.symm
          exact ih short same
        | cons first others =>
          obtain ⟨rfl, _⟩ := List.cons.inj onward
          exact absurd (by simp [here]) clean
      · exact ih short onward
    rw [references]
    cases read : referenceFrom lineStart c rest with
    | some found =>
      obtain ⟨reference, behind⟩ := found
      have size : rest.length + 1 ≤ rounds + 1 := enough
      cases first : (if lineStart then referenceAt (c :: rest) else none) with
      | some other =>
        obtain rfl : other = (reference, behind) := by simpa [referenceFrom, first] using read
        have found : referenceAt (c :: rest) = some (reference, behind) := by
          by_cases start : lineStart = true
          · rwa [if_pos start] at first
          · simp [start] at first
        obtain ⟨consumed, same, clean, some⟩ := eq_append_of_referenceAt found
        have shorter : behind.length ≤ rounds := by
          have lengths := congrArg List.length same
          have positive := List.length_pos_iff.mpr some
          simp only [List.length_cons, List.length_append] at lengths
          omega
        exact List.mem_cons_of_mem _ (later clean (cut.symm.trans same) shorter)
      | none =>
        rw [referenceFrom, first] at read
        by_cases bracket : c = '('
        · subst bracket
          have found : referenceAt rest = some (reference, behind) := by simpa using read
          cases before with
          | nil =>
            obtain ⟨_, rfl⟩ := List.cons.inj cut
            obtain ⟨other, names⟩ := referenceAt_of_namesAt there
            rw [found] at names
            obtain ⟨rfl, _⟩ := Prod.mk.inj (Option.some_inj.mp names)
            exact List.mem_cons_self
          | cons first others =>
            obtain ⟨_, inside⟩ := List.cons.inj cut
            obtain ⟨consumed, same, clean, _⟩ := eq_append_of_referenceAt found
            have shorter : behind.length ≤ rounds := by
              have lengths := congrArg List.length same
              simp only [List.length_append] at lengths
              omega
            exact List.mem_cons_of_mem _ (later clean (inside.symm.trans same) shorter)
        · simp [bracket] at read
    | none =>
      cases before with
      | nil =>
        obtain ⟨rfl, rfl⟩ := List.cons.inj cut
        obtain ⟨behind, names⟩ := referenceAt_of_namesAt there
        simp [referenceFrom, names] at read
      | cons first others =>
        obtain ⟨_, same⟩ := List.cons.inj cut
        exact ih (by simpa using enough) same

theorem mem_embeddedReferences (mentions : Mentions text kind name) : (kind, name) ∈ embeddedReferences text := by
  rcases mentions with start | ⟨before, tail, cut, inside⟩
  · obtain ⟨behind, names⟩ := referenceAt_of_namesAt start
    obtain ⟨c, rest, rfl⟩ := List.exists_cons_of_ne_nil (show text ≠ [] by rintro rfl; simp [referenceAt] at names)
    simp [embeddedReferences, references, referenceFrom, names]
  · exact namesAt_references (Nat.le_refl _) cut inside

end Scanning

end EmbeddedReferences

section Validation

structure DefinedNames where
  proxies : List Text
  groups : List Text
  providers : List Text
  ruleProviders : List Text
  shortcuts : List Text
  subRules : List Text
deriving DecidableEq, Repr

def keyTexts (entries : Entries) : Option (List Text) := entries.mapM fun entry => entry.1.text?

-- The keys of a mapping that may be missing.
def keysOf (value : Option YamlNode) : Option (List Text) :=
  match value with
  | none => some []
  | some value => value.entries?.bind keyTexts

def shortcutNames (root : Entries) : Option (List Text) :=
  match field root (chars "script") with
  | none => some []
  | some script => script.entries?.bind fun entries => keysOf (field entries (chars "shortcuts"))

def groupNamesOf (proxies : List Text) : List YamlNode → List Text → Option (List Text)
  | [], names => some names
  | group :: rest, names =>
    match group.name? with
    | none => none
    | some name =>
      if name ∈ builtInPolicyNames ∨ name ∈ proxies ∨ name ∈ names then none
      else groupNamesOf proxies rest (names ++ [name])

def subRuleNames (root : Entries) : Option (List Text) :=
  match field root (chars "sub-rules") with
  | none => some []
  | some value => value.entries?.bind fun entries =>
    if entries.all fun entry => isSequence entry.2 then keyTexts entries else none

def definedNames (root : Entries) : Option DefinedNames := do
  let proxies ← (sequenceOf root (chars "proxies")).mapM YamlNode.name?
  let providers ← keyTexts (mappingOf root (chars "proxy-providers"))
  let ruleProviders ← keysOf (field root (chars "rule-providers"))
  let shortcuts ← shortcutNames root
  let groups ← groupNamesOf proxies (sequenceOf root (chars "proxy-groups")) []
  let subRules ← subRuleNames root
  some ⟨proxies, groups, providers, ruleProviders, shortcuts, subRules⟩

def DefinedNames.isPolicy (names : DefinedNames) (name : Text) : Bool :=
  name ∈ builtInPolicyNames || name ∈ names.proxies || name ∈ names.groups

def memberNodes (group : YamlNode) : List YamlNode :=
  ((group.field? (chars "proxies")).bind YamlNode.items?).getD [] ++
    (((group.field? (chars "ssid-policy")).bind YamlNode.entries?).getD []).map Prod.snd

def useNodes (group : YamlNode) : List YamlNode := ((group.field? (chars "use")).bind YamlNode.items?).getD []

def isText (fits : Text → Bool) (node : YamlNode) : Bool := (node.text?.map fits).getD false

def isMissingOr (fits : YamlNode → Bool) (value : Option YamlNode) : Bool := (value.map fits).getD true

def isScalarMap (node : YamlNode) : Bool := (node.entries?.map fun entries => entries.all fun entry => entry.1.text?.isSome).getD false

def groupIsClosed (names : DefinedNames) (group : YamlNode) : Bool :=
  isMissingOr isSequence (group.field? (chars "proxies")) && isMissingOr isSequence (group.field? (chars "use")) &&
    isMissingOr isScalarMap (group.field? (chars "ssid-policy")) &&
    (memberNodes group).all (isText names.isPolicy) && (useNodes group).all (isText (· ∈ names.providers))

def groupEdges (groups : List YamlNode) (names : List Text) (name : Text) : List Text :=
  ((groups.filter fun group => group.name? = some name).flatMap fun group => (memberNodes group).filterMap YamlNode.text?).filter
    (· ∈ names)

def referenceIsClosed (names : DefinedNames) (reference : Text × Text) : Bool :=
  let kind := toUpper (trim reference.1)
  let name := trim reference.2
  if kind ≠ chars "RULE-SET" ∧ kind ≠ chars "SCRIPT" then true
  else
    name ≠ [] && (kind ≠ chars "RULE-SET" || name ∈ names.ruleProviders) && (kind ≠ chars "SCRIPT" || name ∈ names.shortcuts)

def isRuleOption (text : Text) : Bool := toLower (trim text) ∈ [chars "no-resolve", chars "no-track"]

-- The last field that is no option; the first one is the type.
def rulePolicy (fields : List Text) : Option Text := (fields.tail.reverse.find? fun text => !isRuleOption text).map trim

def namesSecond (fields : List Text) (known : List Text) : Bool :=
  match fields with
  | _ :: second :: _ :: _ => trim second ∈ known
  | _ => false

def ruleType (fields : List Text) : Text := toUpper (trim (fields.headD []))

def ruleIsClosed (names : DefinedNames) (rule : Text) : Bool :=
  let fields := split rule ','
  (embeddedReferences rule).all (referenceIsClosed names) &&
    match rulePolicy fields with
    | none => false
    | some policy =>
      (ruleType fields ≠ chars "RULE-SET" || namesSecond fields names.ruleProviders) &&
        (ruleType fields ≠ chars "SCRIPT" || namesSecond fields names.shortcuts) &&
        ((ruleType fields = chars "SUB-RULE" && policy ∈ names.subRules) || names.isPolicy policy)

def rulesAreClosed (names : DefinedNames) (rules : YamlNode) : Bool :=
  (rules.items?.map fun items => items.all (isText (ruleIsClosed names))).getD false

def hasGroupCycle (root : Entries) (names : DefinedNames) : Option Bool :=
  findCycle (groupEdges (sequenceOf root (chars "proxy-groups")) names.groups) (names.groups.length + 1) names.groups

def referencesAreClosed (root : Entries) (names : DefinedNames) : Bool :=
  (sequenceOf root (chars "proxy-groups")).all (groupIsClosed names) && hasGroupCycle root names = some false &&
    isMissingOr (rulesAreClosed names) (field root (chars "rules")) &&
    (mappingOf root (chars "sub-rules")).all fun entry => rulesAreClosed names entry.2

variable (env : StashEnv)

def proxyToStash (request : StashRequest) : Except StashError Entries := do
  let root ← assembleStash env request
  match definedNames root with
  | none => .error .referenceGraph
  | some names => if referencesAreClosed root names then .ok root else .error .referenceGraph

end Validation

section Graph

def ruleNodes (root : Entries) : List YamlNode :=
  sequenceOf root (chars "rules") ++ (mappingOf root (chars "sub-rules")).flatMap fun entry => entry.2.items?.getD []

def NamesRuleSet (rule name : Text) : Prop :=
  (ruleType (split rule ',') = chars "RULE-SET" ∧ ((split rule ',')[1]?).map trim = some name) ∨
    ∃ kind raw, Mentions rule kind raw ∧ toUpper kind = chars "RULE-SET" ∧ trim raw = name

def Refers (root : Entries) (names : DefinedNames) (name member : Text) : Prop :=
  member ∈ names.groups ∧ ∃ group ∈ sequenceOf root (chars "proxy-groups"), group.name? = some name ∧
    ∃ node ∈ memberNodes group, node.text? = some member

def DefinedNames.IsRulePolicy (names : DefinedNames) (rule policy : Text) : Prop :=
  names.isPolicy policy ∨ ruleType (split rule ',') = chars "SUB-RULE" ∧ policy ∈ names.subRules

structure ReferenceGraph (root : Entries) (names : DefinedNames) : Prop where
  proxies : (sequenceOf root (chars "proxies")).map YamlNode.name? = names.proxies.map some
  groups : (sequenceOf root (chars "proxy-groups")).map YamlNode.name? = names.groups.map some
  providers : (mappingOf root (chars "proxy-providers")).map (fun entry => entry.1.text?) = names.providers.map some
  ruleProviders : (mappingOf root (chars "rule-providers")).map (fun entry => entry.1.text?) = names.ruleProviders.map some
  subRules : (mappingOf root (chars "sub-rules")).map (fun entry => entry.1.text?) = names.subRules.map some
  distinctProxies : names.proxies.Nodup
  ownProxies : ∀ name ∈ names.proxies, name ∉ builtInPolicyNames ∧ name ∉ names.groups
  distinctGroups : names.groups.Nodup
  ownGroups : ∀ name ∈ names.groups, name ∉ builtInPolicyNames
  members : ∀ group ∈ sequenceOf root (chars "proxy-groups"), ∀ member ∈ memberNodes group,
    ∃ name, member.text? = some name ∧ names.isPolicy name
  uses : ∀ group ∈ sequenceOf root (chars "proxy-groups"), ∀ use ∈ useNodes group,
    ∃ name, use.text? = some name ∧ name ∈ names.providers
  acyclic : ∀ name, ¬Relation.TransGen (Refers root names) name name
  policies : ∀ node ∈ ruleNodes root, ∃ rule, node.text? = some rule ∧
    ∃ policy, rulePolicy (split rule ',') = some policy ∧ names.IsRulePolicy rule policy
  ruleSets : ∀ node ∈ ruleNodes root, ∃ rule, node.text? = some rule ∧ ∀ name, NamesRuleSet rule name → name ∈ names.ruleProviders

variable {root : Entries} {names : DefinedNames} {env : StashEnv} {request : StashRequest}

theorem map_eq_of_mapM {α β : Type} {read : α → Option β} {items : List α} {results : List β}
    (all : items.mapM read = some results) : items.map read = results.map some := by
  induction items generalizing results with
  | nil =>
    obtain rfl : [] = results := by simpa using all
    rfl
  | cons item rest ih =>
    rw [List.mapM_cons] at all
    cases here : read item with
    | none => simp [here] at all
    | some result =>
      cases others : rest.mapM read with
      | none => simp [here, others] at all
      | some more =>
        obtain rfl : result :: more = results := by simpa [here, others] using all
        rw [List.map_cons, List.map_cons, here, ih others]

theorem keys_of_keysOf {key : Text} {keys : List Text} (read : keysOf (field root key) = some keys) :
    (mappingOf root key).map (fun entry => entry.1.text?) = keys.map some := by
  unfold keysOf at read
  unfold mappingOf
  cases value : field root key with
  | none =>
    obtain rfl : [] = keys := by simpa [value] using read
    rfl
  | some node =>
    rw [value] at read
    obtain ⟨entries, inside, texts⟩ := Option.bind_eq_some_iff.mp read
    simp only [Option.bind_some, inside, Option.getD_some]
    exact map_eq_of_mapM texts

theorem taken_groupNamesOf {proxies before all : List Text} {groups : List YamlNode}
    (taken : groupNamesOf proxies groups before = some all) :
    Taken (fun name => name ∉ builtInPolicyNames ∧ name ∉ proxies) (groups.map YamlNode.name?) before all := by
  induction groups generalizing before with
  | nil =>
    obtain rfl : before = all := Option.some_inj.mp taken
    exact .nil _ before
  | cons group rest ih =>
    cases found : group.name? with
    | none => simp [groupNamesOf, found] at taken
    | some name =>
      by_cases bad : name ∈ builtInPolicyNames ∨ name ∈ proxies ∨ name ∈ before
      · simp [groupNamesOf, found, bad] at taken
      · simp only [groupNamesOf, found, if_neg bad] at taken
        simp only [not_or] at bad
        rw [List.map_cons, found]
        exact .cons ⟨bad.1, bad.2.1⟩ bad.2.2 (ih taken)

theorem exists_of_isText {fits : Text → Bool} {node : YamlNode} (fit : isText fits node = true) :
    ∃ text, node.text? = some text ∧ fits text = true := by
  unfold isText at fit
  cases text : node.text? with
  | none => simp [text] at fit
  | some found => exact ⟨found, rfl, by simpa [text] using fit⟩

theorem leads_of_refers {name member : Text} (refers : Refers root names name member) :
    Leads (groupEdges (sequenceOf root (chars "proxy-groups")) names.groups) name member := by
  obtain ⟨known, group, there, named, node, inside, text⟩ := refers
  simp only [Leads, groupEdges, List.mem_filter, List.mem_flatMap, List.mem_filterMap, decide_eq_true_eq]
  exact ⟨⟨group, ⟨there, named⟩, node, inside, text⟩, known⟩

theorem groupEdges_subset (groups : List YamlNode) (names : List Text) (name : Text) : groupEdges groups names name ⊆ names := by
  intro member edge
  exact of_decide_eq_true (List.mem_filter.mp edge).2

theorem mem_groups_of_refers {name member : Text} (refers : Refers root names name member) : member ∈ names.groups := refers.1

theorem acyclic_of_hasGroupCycle (nothing : hasGroupCycle root names = some false) (name : Text) :
    ¬Relation.TransGen (Refers root names) name name := by
  intro cycle
  have known : name ∈ names.groups := by
    rcases Relation.TransGen.tail'_iff.mp cycle with ⟨_, _, last⟩
    exact mem_groups_of_refers last
  have within : Refers root names ≤ Leads (groupEdges (sequenceOf root (chars "proxy-groups")) names.groups) :=
    fun _ _ => leads_of_refers
  exact acyclic_of_findCycle nothing known (Relation.TransGen.mono within name name cycle)

theorem trim_of_no_blank {text : Text} (clean : ' ' ∉ text) : trim text = text := by
  have unlike : ∀ c ∈ text, decide (c = ' ') = false := fun c there => decide_eq_false fun blank => clean (blank ▸ there)
  unfold trim trimOf
  by_cases blank : text.all (· = ' ') = true
  · rw [if_pos blank]
  · rw [if_neg blank]
    apply strip_eq_self
    · exact fun c head => unlike c (List.mem_of_mem_head? head)
    · exact fun c last => unlike c (List.mem_of_mem_getLast? last)

theorem trim_of_mentions {rule kind name : Text} (mentions : Mentions rule kind name) : trim kind = kind := by
  have kinds : ∀ {text}, NamesAt text kind name → ∀ c ∈ kind, isKindChar c = true := by
    rintro text ⟨_, _, _, _, _, _, _, kinds, _⟩
    exact kinds
  have solid : ∀ c ∈ kind, isKindChar c = true := by
    rcases mentions with start | ⟨_, tail, _, inside⟩
    · exact kinds start
    · exact kinds inside
  exact trim_of_no_blank fun there => absurd (solid ' ' there) (by decide)

theorem policy_of_ruleIsClosed {rule : Text} (closed : ruleIsClosed names rule = true) :
    ∃ policy, rulePolicy (split rule ',') = some policy ∧ names.IsRulePolicy rule policy := by
  simp only [ruleIsClosed, Bool.and_eq_true] at closed
  cases found : rulePolicy (split rule ',') with
  | none => simp [found] at closed
  | some policy =>
    simp only [found, Bool.and_eq_true, Bool.or_eq_true, decide_eq_true_eq] at closed
    exact ⟨policy, rfl, closed.2.2.symm⟩

theorem ruleSet_of_ruleIsClosed {rule name : Text} (closed : ruleIsClosed names rule = true) (asked : NamesRuleSet rule name) :
    name ∈ names.ruleProviders := by
  simp only [ruleIsClosed, Bool.and_eq_true] at closed
  obtain ⟨embedded, fields⟩ := closed
  rcases asked with ⟨type, second⟩ | ⟨kind, raw, mentions, type, rfl⟩
  · cases found : rulePolicy (split rule ',') with
    | none => simp [found] at fields
    | some policy =>
      have known : namesSecond (split rule ',') names.ruleProviders = true := by
        simp only [found, type, Bool.and_eq_true, Bool.or_eq_true] at fields
        simpa using fields.1.1
      unfold namesSecond at known
      split at known
      next cut =>
        simp only [cut, List.getElem?_cons_succ, List.getElem?_cons_zero, Option.map_some, Option.some_inj] at second
        simpa [second] using known
      next => simp at known
  · have reference := List.all_eq_true.mp embedded _ (mem_embeddedReferences mentions)
    have upper : toUpper (trim kind) = chars "RULE-SET" := by rw [trim_of_mentions mentions, type]
    have different : chars "RULE-SET" ≠ chars "SCRIPT" := by decide
    simp only [referenceIsClosed, upper] at reference
    have known : trim raw ≠ [] ∧ trim raw ∈ names.ruleProviders := by simpa [different] using reference
    exact known.2

theorem rule_of_rulesAreClosed {node item : YamlNode} (closed : rulesAreClosed names node = true)
    (inside : item ∈ node.items?.getD []) : ∃ rule, item.text? = some rule ∧ ruleIsClosed names rule = true := by
  cases items : node.items? with
  | none => simp [items] at inside
  | some list =>
    simp only [rulesAreClosed, items, Option.map_some, Option.getD_some, List.all_eq_true] at closed inside
    exact exists_of_isText (closed item inside)

theorem closed_of_referencesAreClosed (closed : referencesAreClosed root names = true) :
    (∀ group ∈ sequenceOf root (chars "proxy-groups"), groupIsClosed names group = true) ∧
      hasGroupCycle root names = some false ∧
      ∀ node ∈ ruleNodes root, ∃ rule, node.text? = some rule ∧ ruleIsClosed names rule = true := by
  simp only [referencesAreClosed, Bool.and_eq_true, decide_eq_true_eq, List.all_eq_true] at closed
  obtain ⟨⟨⟨groups, acyclic⟩, rules⟩, subRules⟩ := closed
  refine ⟨groups, acyclic, ?_⟩
  intro node there
  rcases List.mem_append.mp there with top | inside
  · cases value : field root (chars "rules") with
    | none => simp [sequenceOf, value] at top
    | some list =>
      rw [value] at rules
      rw [sequenceOf, value] at top
      exact rule_of_rulesAreClosed (show rulesAreClosed names list = true from rules) top
  · obtain ⟨entry, member, within⟩ := List.mem_flatMap.mp inside
    exact rule_of_rulesAreClosed (subRules entry member) within

theorem definedNames_eq_some (defined : definedNames root = some names) :
    (sequenceOf root (chars "proxies")).map YamlNode.name? = names.proxies.map some ∧
      Taken (fun name => name ∉ builtInPolicyNames ∧ name ∉ names.proxies)
        ((sequenceOf root (chars "proxy-groups")).map YamlNode.name?) [] names.groups ∧
      (mappingOf root (chars "proxy-providers")).map (fun entry => entry.1.text?) = names.providers.map some ∧
      (mappingOf root (chars "rule-providers")).map (fun entry => entry.1.text?) = names.ruleProviders.map some ∧
      (mappingOf root (chars "sub-rules")).map (fun entry => entry.1.text?) = names.subRules.map some := by
  simp only [definedNames, Option.bind_eq_bind, Option.bind_eq_some_iff] at defined
  obtain ⟨proxies, ofProxies, providers, ofProviders, ruleProviders, ofRuleProviders, shortcuts, _, groups, ofGroups,
    subRules, ofSubRules, same⟩ := defined
  obtain rfl := Option.some_inj.mp same
  refine ⟨map_eq_of_mapM ofProxies, taken_groupNamesOf ofGroups, map_eq_of_mapM ofProviders, keys_of_keysOf ofRuleProviders, ?_⟩
  apply keys_of_keysOf
  unfold subRuleNames at ofSubRules
  unfold keysOf
  cases value : field root (chars "sub-rules") with
  | none => simpa [value] using ofSubRules
  | some node =>
    rw [value] at ofSubRules
    obtain ⟨entries, inside, texts⟩ := Option.bind_eq_some_iff.mp ofSubRules
    by_cases sequences : (entries.all fun entry => isSequence entry.2) = true
    · rw [if_pos sequences] at texts
      simp [inside, texts]
    · simp [sequences] at texts

theorem names_of_assembled {base : Entries} {planned : PlannedNames} {groups : Option (List YamlNode)}
    (assembled : Assembled env request root base planned groups) : (sequenceOf root (chars "proxies")).map YamlNode.name? =
      (planned.proxies ++ emittedNames (emittedOf request planned)).map some := by
  rw [assembled.proxies, List.map_append, List.map_append, assembled.right.proxies, emittedNames, List.map_map, List.map_map]
  congr 1
  exact List.map_congr_left fun entry member => name_of_mem_emitNodes member

theorem proxies_of_assembled {base : Entries} {planned : PlannedNames} {groups : Option (List YamlNode)}
    (assembled : Assembled env request root base planned groups) :
    ∃ proxies : List Text, (sequenceOf root (chars "proxies")).map YamlNode.name? = proxies.map some ∧ proxies.Nodup ∧
      ∀ name ∈ proxies, name ∉ builtInPolicyNames := by
  obtain ⟨distinct, fresh⟩ := @emittedNames_nodup request.appendProxyType request.nodes planned.reserved
  refine ⟨planned.proxies ++ emittedNames (emittedOf request planned), names_of_assembled assembled, ?_, ?_⟩
  · rw [List.nodup_append]
    refine ⟨assembled.right.distinctProxies, distinct, ?_⟩
    rintro name old _ new rfl
    exact fresh name new (by simp [PlannedNames.reserved, old])
  · intro name member
    rcases List.mem_append.mp member with old | new
    · exact (assembled.right.ownProxies name old).2
    · intro builtIn
      exact fresh name new (by simp [PlannedNames.reserved, builtIn])

theorem referenceGraph_of_proxyToStash (made : proxyToStash env request = .ok root) : ∃ names, ReferenceGraph root names := by
  simp only [proxyToStash, bind_eq_ok_iff] at made
  obtain ⟨assembled, done, checked⟩ := made
  cases defined : definedNames assembled with
  | none => simp [defined] at checked
  | some names =>
    rw [defined] at checked
    by_cases closed : referencesAreClosed assembled names = true
    · obtain rfl : assembled = root := by simpa [closed] using checked
      obtain ⟨base, planned, groups, built⟩ := assembled_of_ok done
      obtain ⟨ofProxies, ⟨found, same, ofGroups, distinctGroups, ownGroups⟩, ofProviders, ofRuleProviders, ofSubRules⟩ :=
        definedNames_eq_some defined
      obtain ⟨proxies, read, distinct, notBuiltIn⟩ := proxies_of_assembled built
      obtain rfl : names.proxies = proxies :=
        List.map_injective_iff.mpr (Option.some_injective _) (ofProxies.symm.trans read)
      obtain rfl : names.groups = found := by simpa using same
      obtain ⟨groupsClosed, acyclic, rulesClosed⟩ := closed_of_referencesAreClosed closed
      refine ⟨names, ?_⟩
      constructor
      · exact ofProxies
      · exact ofGroups
      · exact ofProviders
      · exact ofRuleProviders
      · exact ofSubRules
      · exact distinct
      · exact fun name member => ⟨notBuiltIn name member, fun group => (ownGroups name group).2 member⟩
      · exact distinctGroups List.nodup_nil
      · exact fun name member => (ownGroups name member).1
      · intro group there member inside
        have closed := groupsClosed group there
        simp only [groupIsClosed, Bool.and_eq_true, List.all_eq_true] at closed
        exact exists_of_isText (closed.1.2 member inside)
      · intro group there use inside
        have closed := groupsClosed group there
        simp only [groupIsClosed, Bool.and_eq_true, List.all_eq_true] at closed
        obtain ⟨name, text, known⟩ := exists_of_isText (closed.2 use inside)
        exact ⟨name, text, of_decide_eq_true known⟩
      · exact acyclic_of_hasGroupCycle acyclic
      · intro node there
        obtain ⟨rule, text, closed⟩ := rulesClosed node there
        exact ⟨rule, text, policy_of_ruleIsClosed closed⟩
      · intro node there
        obtain ⟨rule, text, closed⟩ := rulesClosed node there
        exact ⟨rule, text, fun name asked => ruleSet_of_ruleIsClosed closed asked⟩
    · simp [closed] at checked

theorem proxyToStash_closed (env : StashEnv) (request : StashRequest) :
    (∀ root, proxyToStash env request = .ok root → ∃ names, ReferenceGraph root names) ∧
      ∀ (groups : List YamlNode) (names : List Text),
        ∃ found, findCycle (groupEdges groups names) (names.length + 1) names = some found := by
  constructor
  · exact fun root made => referenceGraph_of_proxyToStash made
  · exact fun groups names => findCycle_ends fun name _ => groupEdges_subset groups names name

def plainStash : StashEnv := ⟨plainPatterns, fun _ => .ok (textSequence [chars "MATCH,Proxy"], .map [])⟩

def plainNode (name : Text) : StashNode := ⟨⟨name, [], 0, false, 0⟩, chars "SS", some [entry "type" (chars "ss")]⟩

def twoNodes : StashRequest :=
  { base := some (.map []), nodes := [plainNode (chars "HK"), plainNode (chars "HK")], enableRuleGenerator := true }

theorem proxyToStash_closed_twoNodes : ∃ root, proxyToStash plainStash twoNodes = .ok root ∧ ∃ names, ReferenceGraph root names :=
  have made : ∃ root, proxyToStash plainStash twoNodes = .ok root := ⟨_, rfl⟩
  made.elim fun root done => ⟨root, done, (proxyToStash_closed plainStash twoNodes).1 root done⟩

end Graph

end SubConverter.Generator
