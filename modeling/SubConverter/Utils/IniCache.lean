import Mathlib.Data.Char
import Mathlib.Data.List.Lex
import SubConverter.Lib.Interleaving
import SubConverter.Utils.IniBlocks

set_option autoImplicit false

namespace SubConverter.Utils.IniReader

section Members

/-- Where the iterator to the cached section stands: at a node of `ini_content`, told by the name that the node has now. -/
inductive SectionRef where
  | unset
  | atEnd
  | destroyed
  | node (name : Text)
deriving DecidableEq

structure Members where
  options : Options := {}
  parsed : Bool := false
  currentSection : Text := []
  iniContent : List (Text × Items) := []
  sectionOrder : List Text := []
  cachedSection : Text := []
  cachedSectionContent : SectionRef := .unset

/-- What `parse` has stored when it returns, with an error or without. -/
def storedLines (o : Options) : Reader → List Text → Stored
  | r, [] => (r.stored.closeLast o r.curSection r.itemGroup r.inIsolatedSection r.thisSection).toOption.getD r.stored
  | r, line :: rest =>
    match readLine o r line with
    | .error _ => r.stored
    | .ok (r, checked) =>
      if checked ∧ allIncluded o r.stored then
        (r.stored.closeLast o r.curSection r.itemGroup r.inIsolatedSection r.thisSection).toOption.getD r.stored
      else storedLines o r rest

-- A multimap keeps its items by name, and those of one name in the order in which they came.
def inKeyOrder (items : Items) : Items := items.mergeSort fun left right => decide (left.1 ≤ right.1)

namespace Members

variable (m : Members)

def sectionExist (name : Text) : Bool := (Keyed.find name m.iniContent).isSome

def locate (name : Text) : SectionRef := if m.sectionExist name then .node name else .atEnd

def eraseAll : Members :=
  { m with iniContent := [], sectionOrder := [], cachedSection := [], cachedSectionContent := .atEnd, parsed := false }

def parse (content : Text) : Members :=
  if content = [] then m
  else
    let stored := storedLines m.options (startReader m.options) (linesOf (withoutBom content))
    { m.eraseAll with
      iniContent := stored.iniContent
      sectionOrder := stored.sectionOrder
      parsed := (IniReader.parse m.options content).toBool }

def enterSection (name : Text) : Members :=
  if !m.sectionExist name then m
  else { m with currentSection := name, cachedSection := name, cachedSectionContent := m.locate name }

def set (name itemName itemVal : Text) : Members :=
  if name = [] then m
  else
    match Keyed.find name m.iniContent with
    | some items => { m with parsed := true, iniContent := Keyed.put name (items ++ [(itemName, itemVal)]) m.iniContent }
    | none => { m with
      parsed := true
      iniContent := Keyed.put name [(itemName, itemVal)] m.iniContent
      sectionOrder := m.sectionOrder ++ [name] }

-- The node is taken out and put back under its new name, and an iterator to it goes with it.
def renameSection (oldName newName : Text) : Members :=
  match Keyed.find oldName m.iniContent with
  | none => m
  | some items =>
    if m.sectionExist newName then m
    else { m with
      iniContent := Keyed.put newName items (Keyed.erase oldName m.iniContent)
      sectionOrder := m.sectionOrder.map fun name => if name = oldName then newName else name
      cachedSectionContent := if m.cachedSectionContent = .node oldName then .node newName else m.cachedSectionContent }

def erase (name itemName : Text) : Members :=
  match Keyed.find name m.iniContent with
  | none => m
  | some items =>
    let erased := items.filter fun item => item.1 ≠ itemName
    { m with
      iniContent := Keyed.put name erased m.iniContent
      cachedSectionContent :=
        if erased.length ≠ items.length ∧ m.cachedSection = name then m.locate name else m.cachedSectionContent }

def eraseSection (name : Text) : Members :=
  if !m.sectionExist name then m
  else { m with
    iniContent := Keyed.put name [] m.iniContent
    cachedSection := if m.cachedSection = name then [] else m.cachedSection
    cachedSectionContent := if m.cachedSection = name then .atEnd else m.cachedSectionContent }

def removeSection (name : Text) : Members :=
  if !m.sectionExist name then m
  else { m with
    iniContent := Keyed.erase name m.iniContent
    sectionOrder := m.sectionOrder.erase name
    cachedSection := if m.cachedSection = name then [] else m.cachedSection
    cachedSectionContent :=
      if m.cachedSection = name then .atEnd
      else if m.cachedSectionContent = .node name then .destroyed
      else m.cachedSectionContent }

/-- The assignment of another reader. The nodes of the old `ini_content` are gone behind it. -/
def assign (src : Members) : Members where
  options := { src.options with directSaveSections := m.options.directSaveSections }
  parsed := src.parsed
  currentSection := src.currentSection
  iniContent := src.iniContent
  sectionOrder := src.sectionOrder
  cachedSection := m.cachedSection
  cachedSectionContent :=
    match m.cachedSectionContent with
    | .node _ => .destroyed
    | other => other

end Members

end Members

section Lookups

inductive Lookup where
  | itemExist (name itemName : Text)
  | itemPrefixExists (name itemName : Text)
  | getItems (name : Text)
  | getAll (name itemName : Text)
  | get (name itemName : Text)
  | getIfExist (name itemName : Text)
deriving DecidableEq

inductive Answer where
  | flag (holds : Bool)
  | text (value : Text)
  | texts (values : List Text)
  | items (items : Items)
  | notExist
  | notParsed
deriving DecidableEq

namespace Members

variable (m : Members)

def cacheSection (name : Text) : Members :=
  if name ≠ m.cachedSection then { m with cachedSection := name, cachedSectionContent := m.locate name } else m

/-- The items behind the cached iterator; nothing when it does not refer to a section, where the code has no defined result. -/
def cachedItems : Option Items :=
  match m.cachedSectionContent with
  | .node name => (Keyed.find name m.iniContent).map inKeyOrder
  | _ => none

def itemExist (name itemName : Text) : Option (Bool × Members) :=
  if !m.sectionExist name then some (false, m)
  else
    let m := m.cacheSection name
    m.cachedItems.map fun items => (items.any fun item => item.1 = itemName, m)

def itemPrefixExists (name itemName : Text) : Option (Bool × Members) :=
  if !m.sectionExist name then some (false, m)
  else
    let m := m.cacheSection name
    m.cachedItems.map fun items => (items.any fun item => itemName.isPrefixOf item.1, m)

def getItemsRef (name : Text) : SectionRef × Members :=
  if !m.parsed || !m.sectionExist name then (.atEnd, m)
  else
    let m := m.cacheSection name
    (m.cachedSectionContent, m)

def getItems (name : Text) : Option (Answer × Members) :=
  let (found, m) := m.getItemsRef name
  if found = .atEnd then some (.notExist, m) else m.cachedItems.map fun items => (.items items, m)

def getAll (name itemName : Text) : Option (Answer × Members) :=
  if !m.parsed then some (.notParsed, m)
  else
    let (found, m) := m.getItemsRef name
    if found = .atEnd then some (.notExist, m)
    else m.cachedItems.map fun items => (.texts ((items.filter fun item => itemName.isPrefixOf item.1).map Prod.snd), m)

def firstValue (itemName : Text) (items : Items) : Text :=
  ((items.find? fun item => item.1 = itemName).map Prod.snd).getD []

def get (name itemName : Text) : Option (Text × Members) :=
  if !m.parsed || !m.sectionExist name then some ([], m)
  else
    let m := m.cacheSection name
    m.cachedItems.map fun items => (firstValue itemName items, m)

def getIfExist (name itemName : Text) : Option (Answer × Members) :=
  if !m.parsed then some (.notParsed, m)
  else
    (m.itemExist name itemName).bind fun (there, m) =>
      if there then (m.get name itemName).map fun (value, m) => (.text value, m) else some (.notExist, m)

def look : Lookup → Option (Answer × Members)
  | .itemExist name itemName => (m.itemExist name itemName).map fun (holds, m) => (.flag holds, m)
  | .itemPrefixExists name itemName => (m.itemPrefixExists name itemName).map fun (holds, m) => (.flag holds, m)
  | .getItems name => m.getItems name
  | .getAll name itemName => m.getAll name itemName
  | .get name itemName => (m.get name itemName).map fun (value, m) => (.text value, m)
  | .getIfExist name itemName => m.getIfExist name itemName

end Members

end Lookups

section Calls

inductive Call where
  | configure (options : Options)
  | parse (content : Text)
  | enterSection (name : Text)
  | set (name itemName itemVal : Text)
  | renameSection (oldName newName : Text)
  | erase (name itemName : Text)
  | eraseSection (name : Text)
  | removeSection (name : Text)
  | assign (src : Members)
  | lookup (lookup : Lookup)

def Lookup.name : Lookup → Text
  | .itemExist name _ | .itemPrefixExists name _ | .getItems name | .getAll name _ | .get name _ | .getIfExist name _ => name

/-- The lookups that refuse to read before `parsed` is set. -/
def Lookup.needsParsed : Lookup → Bool
  | .itemExist .. | .itemPrefixExists .. => false
  | _ => true

def Lookup.reports : Lookup → Bool
  | .getItems _ | .getAll .. => true
  | _ => false

def Lookup.read (items : Items) : Lookup → Answer
  | .itemExist _ itemName => .flag (items.any fun item => item.1 = itemName)
  | .itemPrefixExists _ itemName => .flag (items.any fun item => itemName.isPrefixOf item.1)
  | .getItems _ => .items items
  | .getAll _ itemName => .texts ((items.filter fun item => itemName.isPrefixOf item.1).map Prod.snd)
  | .get _ itemName => .text (Members.firstValue itemName items)
  | .getIfExist _ itemName => if items.any fun item => item.1 = itemName then .text (Members.firstValue itemName items) else .notExist

def Lookup.failure : Lookup → Answer
  | .itemExist .. | .itemPrefixExists .. => .flag false
  | .get .. => .text []
  | _ => .notExist

namespace Members

def direct (m : Members) (lookup : Lookup) : Answer :=
  match Keyed.find lookup.name m.iniContent with
  | none => lookup.failure
  | some items => lookup.read (inKeyOrder items)

def step (m : Members) : Call → Option Members
  | .configure options => some { m with options := options }
  | .parse content => some (m.parse content)
  | .enterSection name => some (m.enterSection name)
  | .set name itemName itemVal => some (m.set name itemName itemVal)
  | .renameSection oldName newName => some (m.renameSection oldName newName)
  | .erase name itemName => some (m.erase name itemName)
  | .eraseSection name => some (m.eraseSection name)
  | .removeSection name => some (m.removeSection name)
  | .assign src => some (m.assign src)
  | .lookup lookup => (m.look lookup).map Prod.snd

def Meets (m : Members) : Call → Prop
  | .set name _ _ => name = m.cachedSection → name = [] ∨ m.sectionExist name
  | .renameSection oldName newName =>
    newName = m.cachedSection → m.sectionExist oldName → m.sectionExist newName ∨ m.cachedSectionContent = .node oldName
  | .eraseSection name => name = m.cachedSection → m.sectionExist name → ¬m.sectionExist []
  | .removeSection name => name = m.cachedSection → m.sectionExist name → name = [] ∨ ¬m.sectionExist []
  | .assign src => ¬src.sectionExist m.cachedSection
  | .lookup lookup => lookup.needsParsed → m.parsed
  | _ => True

instance Meets.decidable (m : Members) (call : Call) : Decidable (m.Meets call) := by
  cases call <;> unfold Meets <;> infer_instance

end Members

end Calls

section Sections

variable {κ α : Type} [DecidableEq κ] {key other : κ} {value : α} {entries : List (κ × α)}

theorem isSome_find_put : (Keyed.find other (Keyed.put key value entries)).isSome = (other = key || (Keyed.find other entries).isSome) := by
  by_cases same : other = key
  · simp [same, Keyed.find_put]
  · simp [same, Keyed.find_put_of_ne same]

theorem isSome_find_erase : (Keyed.find other (Keyed.erase key entries)).isSome = (other ≠ key && (Keyed.find other entries).isSome) := by
  by_cases same : other = key
  · simp [same, Keyed.find_erase]
  · simp [same, Keyed.find_erase_of_ne same]

variable {o : Options} {s stored : Stored}

def Stored.Named (s : Stored) : Prop := Keyed.find [] s.iniContent = none

theorem Stored.Named.put {name : Text} {group : Items} (named : s.Named) (filled : name ≠ []) :
    Keyed.find [] (Keyed.put name group s.iniContent) = none := by
  rw [Keyed.find_put_of_ne (Ne.symm filled)]
  exact named

theorem ne_nil_of_finished {name : Text} {group : Items} (read : ¬(!finished o name group) = true) : name ≠ [] := by
  simp only [finished, Bool.not_eq_true', Bool.not_eq_false, Bool.and_eq_true, decide_eq_true_eq] at read
  exact read.1

theorem Stored.Named.close {name next : Text} {group : Items} {isolated : Bool} (named : s.Named)
    (closed : s.close o name group isolated next = .ok stored) : stored.Named := by
  unfold Stored.close at closed
  split at closed
  next =>
    cases closed
    exact named
  next read =>
    have filled := ne_nil_of_finished read
    split at closed <;> split at closed <;> cases closed
    next => exact named
    next => exact named.put filled
    next => exact named

theorem Stored.Named.closeLast {name last : Text} {group : Items} {isolated : Bool} (named : s.Named) :
    ((s.closeLast o name group isolated last).toOption.getD s).Named := by
  unfold Stored.closeLast
  split
  next => exact named
  next read =>
    have filled := ne_nil_of_finished read
    split
    next =>
      split
      next => exact named.put filled
      next => split <;> exact named
    next =>
      split
      next => exact named.put filled
      next => exact named

theorem named_readLine {r next : Reader} {raw : Text} {checked : Bool} (named : r.stored.Named)
    (ok : readLine o r raw = .ok (next, checked)) : next.stored.Named := by
  cases title : titleOf raw with
  | none =>
    obtain ⟨same, -⟩ := readLine_other title ok
    rw [same]
    exact named
  | some name =>
    rw [readLine_title title] at ok
    cases closed : r.stored.close o r.curSection r.itemGroup r.inIsolatedSection name with
    | error _ =>
      rw [closed] at ok
      cases ok
    | ok stored =>
      rw [closed] at ok
      cases ok
      exact named.close closed

theorem named_storedLines {r : Reader} {lines : List Text} (named : r.stored.Named) : (storedLines o r lines).Named := by
  induction lines generalizing r with
  | nil => exact named.closeLast
  | cons line rest ih =>
    rw [storedLines]
    split
    next => exact named
    next r' checked ok =>
      have later := named_readLine named ok
      split
      next => exact later.closeLast
      next => exact ih later

end Sections

section Freshness

namespace Members

variable {m next : Members} {name oldName newName itemName itemVal : Text} {call : Call}

structure Fresh (m : Members) : Prop where
  live : ∀ {name}, m.cachedSectionContent = .node name → m.sectionExist name
  current : m.sectionExist m.cachedSection → m.cachedSectionContent = .node m.cachedSection

theorem locate_of_exist (there : m.sectionExist name) : m.locate name = .node name := if_pos there

theorem sectionExist_of_find {items : Items} (found : Keyed.find name m.iniContent = some items) : m.sectionExist name := by
  rw [sectionExist, found, Option.isSome_some]

theorem Fresh.cacheSection (fresh : m.Fresh) (there : m.sectionExist name) :
    (m.cacheSection name).Fresh ∧ (m.cacheSection name).cachedSectionContent = .node name := by
  unfold Members.cacheSection
  split
  next =>
    have placed := locate_of_exist there
    constructor
    · constructor
      case live =>
        intro other same
        have here : name = other := SectionRef.node.inj (placed.symm.trans same)
        exact here ▸ there
      case current => exact fun _ => placed
    · exact placed
  next same =>
    rw [not_not] at same
    exact ⟨fresh, same ▸ fresh.current (same ▸ there)⟩

theorem Fresh.parse (fresh : m.Fresh) (content : Text) : (m.parse content).Fresh := by
  unfold Members.parse
  split
  next => exact fresh
  next =>
    have named : (storedLines m.options (startReader m.options) (linesOf (withoutBom content))).Named := by
      apply named_storedLines
      unfold startReader
      split <;> rfl
    have unnamed : Keyed.find [] (storedLines m.options (startReader m.options) (linesOf (withoutBom content))).iniContent = none := named
    constructor
    case live => simp [eraseAll]
    case current => simp [eraseAll, sectionExist, unnamed]

theorem Fresh.enterSection (fresh : m.Fresh) : (m.enterSection name).Fresh := by
  unfold Members.enterSection
  split
  next => exact fresh
  next there =>
    rw [Bool.not_eq_true', Bool.not_eq_false] at there
    have placed := locate_of_exist there
    constructor
    case live =>
      intro other same
      have here : name = other := SectionRef.node.inj (placed.symm.trans same)
      exact here ▸ there
    case current => exact fun _ => placed

theorem Fresh.congr (fresh : m.Fresh) (sections : ∀ name, next.sectionExist name = m.sectionExist name)
    (cached : next.cachedSection = m.cachedSection) (content : next.cachedSectionContent = m.cachedSectionContent) : next.Fresh := by
  constructor
  case live =>
    intro name here
    rw [sections]
    exact fresh.live (content ▸ here)
  case current =>
    rw [sections, cached, content]
    exact fresh.current

theorem isSome_put_of_exist {items : Items} (there : m.sectionExist name) (other : Text) :
    (Keyed.find other (Keyed.put name items m.iniContent)).isSome = m.sectionExist other := by
  rw [isSome_find_put]
  by_cases same : other = name
  · simp [same, there]
  · simp [same, sectionExist]

theorem fresh_set_iff (fresh : m.Fresh) : (m.set name itemName itemVal).Fresh ↔ m.Meets (.set name itemName itemVal) := by
  simp only [Members.set, Meets]
  split
  next empty => exact ⟨fun _ _ => .inl empty, fun _ => fresh⟩
  next filled =>
    split
    next items found =>
      have there := sectionExist_of_find found
      constructor
      · exact fun _ _ => .inr there
      · exact fun _ => fresh.congr (isSome_put_of_exist there) rfl rfl
    next missing =>
      have absent : m.sectionExist name = false := by simp [sectionExist, missing]
      constructor
      · intro kept same
        have here := kept.current (by simp [sectionExist, isSome_find_put, same])
        rw [← same] at here
        exact .inr (fresh.live here)
      · intro met
        have apart : name ≠ m.cachedSection := by
          intro same
          simp [filled, absent] at met
          exact met same
        constructor
        case live =>
          intro other here
          simp only [sectionExist, isSome_find_put, Bool.or_eq_true]
          exact .inr (fresh.live here)
        case current =>
          intro there
          simp only [sectionExist, isSome_find_put, Ne.symm apart, decide_false, Bool.false_or] at there
          exact fresh.current there

theorem fresh_renameSection_iff (fresh : m.Fresh) :
    (m.renameSection oldName newName).Fresh ↔ m.Meets (.renameSection oldName newName) := by
  simp only [Members.renameSection, Meets]
  split
  next missing =>
    have absent : m.sectionExist oldName = false := by simp [sectionExist, missing]
    simp [fresh, absent]
  next items found =>
    have there := sectionExist_of_find found
    split
    next taken => simp [fresh, taken]
    next free =>
      have apart : oldName ≠ newName := fun same => free (same ▸ there)
      constructor
      · intro kept same _
        have here := kept.current (by simp [sectionExist, isSome_find_put, same])
        dsimp only at here
        split at here
        next moved => exact .inr moved
        next =>
          rw [← same] at here
          exact absurd (fresh.live here) free
      · intro met
        constructor
        case live =>
          intro other here
          simp only [sectionExist, isSome_find_put, isSome_find_erase]
          dsimp only at here
          split at here
          next =>
            cases here
            simp
          next elsewhere =>
            have old : other ≠ oldName := fun same => elsewhere (same ▸ here)
            have known := fresh.live here
            rw [sectionExist] at known
            simp [old, known]
        case current =>
          intro known
          simp only [sectionExist, isSome_find_put, isSome_find_erase, Bool.or_eq_true, Bool.and_eq_true, decide_eq_true_eq] at known
          dsimp only
          rcases known with same | ⟨other, known⟩
          · have moved := (met same.symm there).resolve_left free
            rw [if_pos moved, same]
          · have here := fresh.current known
            have elsewhere : m.cachedSectionContent ≠ .node oldName := by
              rw [here]
              exact fun same => other (SectionRef.node.inj same)
            rw [if_neg elsewhere, here]

theorem Fresh.erase (fresh : m.Fresh) : (m.erase name itemName).Fresh := by
  unfold Members.erase
  split
  next => exact fresh
  next items found =>
    have there := sectionExist_of_find found
    refine fresh.congr (isSome_put_of_exist there) rfl ?_
    dsimp only
    split
    next cached => rw [locate_of_exist there, ← cached.2, fresh.current (cached.2 ▸ there)]
    next => rfl

theorem fresh_eraseSection_iff (fresh : m.Fresh) : (m.eraseSection name).Fresh ↔ m.Meets (.eraseSection name) := by
  simp only [Members.eraseSection, Meets]
  split
  next absent =>
    rw [Bool.not_eq_true'] at absent
    simp [fresh, absent]
  next there =>
    rw [Bool.not_eq_true', Bool.not_eq_false] at there
    by_cases same : m.cachedSection = name
    · simp only [if_pos same]
      constructor
      · intro kept _ _ unnamed
        have here := kept.current ((isSome_put_of_exist there []).trans unnamed)
        cases here
      · intro met
        constructor
        case live => simp
        case current =>
          intro unnamed
          exact absurd ((isSome_put_of_exist there []).symm.trans unnamed) (met same.symm there)
    · simp only [if_neg same]
      constructor
      · exact fun _ here => absurd here.symm same
      · exact fun _ => fresh.congr (isSome_put_of_exist there) rfl rfl

theorem fresh_removeSection_iff (fresh : m.Fresh) : (m.removeSection name).Fresh ↔ m.Meets (.removeSection name) := by
  simp only [Members.removeSection, Meets]
  split
  next absent =>
    rw [Bool.not_eq_true'] at absent
    simp [fresh, absent]
  next there =>
    rw [Bool.not_eq_true', Bool.not_eq_false] at there
    by_cases same : m.cachedSection = name
    · simp only [if_pos same]
      constructor
      · intro kept _ _
        by_contra unnamed
        rw [not_or, not_not] at unnamed
        have known : (Keyed.find [] m.iniContent).isSome := unnamed.2
        have here := kept.current (by simp [sectionExist, isSome_find_erase, Ne.symm unnamed.1, known])
        cases here
      · intro met
        constructor
        case live => simp
        case current =>
          intro unnamed
          simp only [sectionExist, isSome_find_erase, Bool.and_eq_true, decide_eq_true_eq] at unnamed
          exact ((met same.symm there).elim (fun empty => unnamed.1 empty.symm) fun known => known unnamed.2).elim
    · simp only [if_neg same]
      constructor
      · exact fun _ here => absurd here.symm same
      · intro _
        constructor
        case live =>
          intro other here
          dsimp only at here
          split at here
          next => cases here
          next elsewhere =>
            have apart : other ≠ name := fun same => elsewhere (same ▸ here)
            have known : (Keyed.find other m.iniContent).isSome := fresh.live here
            simp [sectionExist, isSome_find_erase, apart, known]
        case current =>
          intro known
          simp only [sectionExist, isSome_find_erase, Bool.and_eq_true, decide_eq_true_eq] at known
          have here := fresh.current known.2
          have elsewhere : m.cachedSectionContent ≠ .node name := by
            rw [here]
            exact fun same => known.1 (SectionRef.node.inj same)
          dsimp only
          rw [if_neg elsewhere, here]

theorem fresh_assign_iff {src : Members} : (m.assign src).Fresh ↔ m.Meets (.assign src) := by
  have nowhere : ∀ name, (m.assign src).cachedSectionContent ≠ .node name := by
    intro name
    unfold assign
    cases m.cachedSectionContent <;> simp
  constructor
  · exact fun kept there => nowhere _ (kept.current there)
  · intro met
    constructor
    case live => exact fun here => absurd here (nowhere _)
    case current => exact fun there => absurd there met

end Members

end Freshness

section Served

namespace Members

variable {m next : Members} {name itemName : Text} {lookup : Lookup} {answer : Answer}

theorem cacheSection_iniContent : (m.cacheSection name).iniContent = m.iniContent := by
  unfold Members.cacheSection
  split <;> rfl

theorem cacheSection_parsed : (m.cacheSection name).parsed = m.parsed := by
  unfold Members.cacheSection
  split <;> rfl

theorem Fresh.cachedItems {items : Items} (fresh : m.Fresh) (found : Keyed.find name m.iniContent = some items) :
    (m.cacheSection name).cachedItems = some (inKeyOrder items) := by
  have placed := (fresh.cacheSection (sectionExist_of_find found)).2
  rw [Members.cachedItems, placed, cacheSection_iniContent]
  dsimp only
  rw [found, Option.map_some]

theorem cacheSection_cacheSection : (m.cacheSection name).cacheSection name = m.cacheSection name := by
  have cached : (m.cacheSection name).cachedSection = name := by
    unfold Members.cacheSection
    split
    next => rfl
    next same => exact (not_not.mp same).symm
  exact if_neg (not_not.mpr cached.symm)

theorem look_missing (missing : Keyed.find lookup.name m.iniContent = none) (ready : lookup.needsParsed → m.parsed) :
    m.look lookup = some (lookup.failure, m) := by
  have absent : m.sectionExist lookup.name = false := by simp [sectionExist, missing]
  cases lookup <;> simp only [Lookup.name] at absent
  case itemExist | itemPrefixExists => simp [look, itemExist, itemPrefixExists, Lookup.failure, absent]
  case getItems | get => simp [look, getItems, getItemsRef, get, Lookup.failure, absent]
  case getAll | getIfExist =>
    have parsed := ready rfl
    simp [look, getAll, getItemsRef, getIfExist, itemExist, Lookup.failure, absent, parsed]

theorem Fresh.look_found {items : Items} (fresh : m.Fresh) (found : Keyed.find lookup.name m.iniContent = some items)
    (ready : lookup.needsParsed → m.parsed) :
    m.look lookup = some (lookup.read (inKeyOrder items), m.cacheSection lookup.name) := by
  have there := sectionExist_of_find found
  have cached := fresh.cachedItems found
  have placed := (fresh.cacheSection there).2
  cases lookup <;> simp only [Lookup.name] at there cached placed
  case itemExist | itemPrefixExists => simp [look, itemExist, itemPrefixExists, Lookup.read, Lookup.name, there, cached]
  case getItems | getAll =>
    have parsed := ready rfl
    simp [look, getItems, getAll, getItemsRef, Lookup.read, Lookup.name, there, cached, placed, parsed]
  case get =>
    have parsed := ready rfl
    simp [look, get, Lookup.read, Lookup.name, there, cached, parsed]
  case getIfExist name itemName =>
    have parsed := ready rfl
    have still : (m.cacheSection name).sectionExist name := by
      rw [sectionExist, cacheSection_iniContent]
      exact there
    simp only [look, getIfExist, itemExist, get, Lookup.read, Lookup.name, there, cached, parsed, still, cacheSection_cacheSection,
      cacheSection_parsed, Bool.not_true, Bool.or_self, Bool.false_eq_true, if_false, Option.map_some, Option.bind_some]
    split <;> rfl

theorem Fresh.look (fresh : m.Fresh) (ready : lookup.needsParsed → m.parsed) :
    ∃ later, m.look lookup = some (m.direct lookup, later) ∧ later.Fresh := by
  unfold direct
  cases found : Keyed.find lookup.name m.iniContent with
  | none => exact ⟨m, look_missing found ready, fresh⟩
  | some items => exact ⟨m.cacheSection lookup.name, fresh.look_found found ready, (fresh.cacheSection (sectionExist_of_find found)).1⟩

theorem Fresh.step {call : Call} (fresh : m.Fresh) (met : m.Meets call) (stepped : m.step call = some next) : next.Fresh := by
  cases call <;> simp only [Members.step, Option.some.injEq] at stepped
  case configure =>
    subst stepped
    exact fresh.congr (fun _ => rfl) rfl rfl
  case parse content => exact stepped ▸ fresh.parse content
  case enterSection => exact stepped ▸ fresh.enterSection
  case set => exact stepped ▸ (fresh_set_iff fresh).mpr met
  case renameSection => exact stepped ▸ (fresh_renameSection_iff fresh).mpr met
  case erase => exact stepped ▸ fresh.erase
  case eraseSection => exact stepped ▸ (fresh_eraseSection_iff fresh).mpr met
  case removeSection => exact stepped ▸ (fresh_removeSection_iff fresh).mpr met
  case assign => exact stepped ▸ fresh_assign_iff.mpr met
  case lookup lookup =>
    obtain ⟨later, looked, kept⟩ := fresh.look met
    rw [looked, Option.map_some, Option.some.injEq] at stepped
    exact stepped ▸ kept

theorem Fresh.enabled {call : Call} (fresh : m.Fresh) (met : m.Meets call) : ∃ next, m.step call = some next := by
  cases call
  case lookup lookup =>
    obtain ⟨later, looked, -⟩ := fresh.look met
    exact ⟨later, congrArg (Option.map Prod.snd) looked⟩
  all_goals exact ⟨_, rfl⟩

theorem fresh_initial (options : Options) : Fresh { options := options } := by
  constructor
  case live => simp
  case current => simp [sectionExist, Keyed.find]

theorem direct_notExist_iff (reports : lookup.reports) : m.direct lookup = .notExist ↔ ¬m.sectionExist lookup.name := by
  cases lookup <;> cases reports
  case getItems name =>
    simp only [direct, sectionExist, Lookup.name]
    cases Keyed.find name m.iniContent <;> simp [Lookup.failure, Lookup.read]
  case getAll name itemName =>
    simp only [direct, sectionExist, Lookup.name]
    cases Keyed.find name m.iniContent <;> simp [Lookup.failure, Lookup.read]

theorem direct_of_not_exist (missing : ¬m.sectionExist lookup.name) : m.direct lookup = lookup.failure := by
  rw [sectionExist, Option.not_isSome_iff_eq_none] at missing
  rw [direct, missing]

theorem Fresh.run {calls : List Call} (fresh : m.Fresh) (met : StepsMeet Members.step Meets m calls) :
    ∃ final, runSteps Members.step m calls = some final ∧ final.Fresh := by
  induction calls generalizing m with
  | nil => exact ⟨m, rfl, fresh⟩
  | cons call rest ih =>
    obtain ⟨next, stepped⟩ := fresh.enabled met.1
    obtain ⟨final, ran, kept⟩ := ih (fresh.step met.1 stepped) (met.2 next stepped)
    exact ⟨final, by rw [runSteps, stepped, Option.bind_some, ran], kept⟩

end Members

theorem section_cache_fresh (options : Options) (calls : List Call)
    (met : StepsMeet Members.step Members.Meets { options := options } calls) :
    ∃ m, runSteps Members.step { options := options } calls = some m ∧
      ∀ lookup, (lookup.needsParsed → m.parsed) →
        (m.look lookup).map Prod.fst = some (m.direct lookup) ∧
          (¬m.sectionExist lookup.name → m.direct lookup = lookup.failure) ∧
          (lookup.reports → (m.direct lookup = .notExist ↔ ¬m.sectionExist lookup.name)) := by
  obtain ⟨m, ran, fresh⟩ := (Members.fresh_initial options).run met
  refine ⟨m, ran, ?_⟩
  intro lookup ready
  obtain ⟨later, looked, -⟩ := fresh.look ready
  refine ⟨by rw [looked, Option.map_some], Members.direct_of_not_exist, Members.direct_notExist_iff⟩

def renamedSection : List Call :=
  [.parse (chars "[A]\nk=1\n"), .lookup (.get (chars "A") (chars "k")), .renameSection (chars "A") (chars "B"),
    .set (chars "A") (chars "k") (chars "2")]

theorem section_cache_fresh_renamed :
    ∃ m, runSteps Members.step {} (renamedSection.take 3) = some m ∧
      ∀ lookup, (lookup.needsParsed → m.parsed) → (m.look lookup).map Prod.fst = some (m.direct lookup) := by
  obtain ⟨m, ran, served⟩ := section_cache_fresh {} (renamedSection.take 3) (by decide)
  exact ⟨m, ran, fun lookup ready => (served lookup ready).1⟩

theorem section_cache_stale :
    ¬∀ options calls m lookup, runSteps Members.step { options := options } calls = some m → (lookup.needsParsed → m.parsed) →
      (m.look lookup).map Prod.fst = some (m.direct lookup) := by
  intro fresh
  have outcome : (runSteps Members.step {} renamedSection).map
      (fun m => (m.parsed, (m.look (.get (chars "A") (chars "k"))).map Prod.fst, m.direct (.get (chars "A") (chars "k")))) =
      some (true, some (.text (chars "1")), .text (chars "2")) := by
    decide +kernel
  cases ran : runSteps Members.step {} renamedSection with
  | none =>
    rw [ran] at outcome
    cases outcome
  | some m =>
    rw [ran, Option.map_some, Option.some.injEq, Prod.mk.injEq, Prod.mk.injEq] at outcome
    have served := fresh {} renamedSection m (.get (chars "A") (chars "k")) ran fun _ => outcome.1
    rw [outcome.2.1, outcome.2.2] at served
    exact absurd served (by decide)

end Served

end SubConverter.Utils.IniReader
