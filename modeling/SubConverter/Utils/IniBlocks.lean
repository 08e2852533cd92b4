import SubConverter.Utils.IniReader

set_option autoImplicit false

namespace SubConverter.Utils.IniReader

open Handler (isSpace trim)

section Blocks

structure Block where
  title : Text
  items : Items
  -- What stands in front of the first title.
  isolated : Bool := false
deriving DecidableEq, Repr

variable (o : Options)

def titleOf (raw : Text) : Option Text :=
  let strLine := raw.rdropWhile isSpace
  let escaped := processEscapeChar strLine
  if isTitle escaped strLine.length then some ((escaped.drop 1).take (strLine.length - 2)) else none

-- What a line that is no title adds to its section.
def lineItem (excluded direct named : Bool) (raw : Text) : Option (Text × Text) :=
  let strLine := raw.rdropWhile isSpace
  let posEqual := strLine.idxOf? '='
  let escaped := processEscapeChar strLine
  if isComment strLine ∧ !direct then none
  else if ((o.storeAnyLine ∧ posEqual = none) ∨ direct) ∧ !excluded ∧ named then some (chars "\x7bNONAME\x7d", escaped)
  else
    match posEqual with
    | none => none
    | some pos =>
      if excluded then none else some (trim (escaped.take pos), (escaped.drop (pos + 1)).dropWhile fun c => c = ' ')

-- The block that is open, and those behind it.
def blocksFrom (name : Text) (excluded direct isolated : Bool) (items : Items) : List Text → Block × List Block
  | [] => (⟨name, items, isolated⟩, [])
  | line :: rest =>
    match titleOf line with
    | some next =>
      let (first, later) := blocksFrom next (chkIgnore o next) (chkDirectSave o next) false [] rest
      (⟨name, items, isolated⟩, first :: later)
    | none => blocksFrom name excluded direct isolated (items ++ (lineItem o excluded direct (name ≠ []) line).toList) rest

def blocksOf (content : Text) : Block × List Block :=
  let r := startReader o
  blocksFrom o r.curSection r.inExcludedSection r.inDirectSaveSection r.inIsolatedSection [] (linesOf (withoutBom content))

def storeBlocks (s : Stored) (block : Block) (rest : List Block) : Except ReadError Stored :=
  if block.title = [] ∧ block.items ≠ [] then .error .outOfBound
  else
    match rest with
    | [] => s.closeLast o block.title block.items block.isolated (if block.isolated then [] else block.title)
    | next :: later => do
      let s ← s.close o block.title block.items block.isolated next.title
      if allIncluded o s then s.closeLast o next.title [] false next.title else storeBlocks s next later
termination_by structural rest

end Blocks

section Reading

variable {o : Options} {r : Reader}

theorem head_processEscapeChar {line : Text} (bracket : (processEscapeChar line).head? = some '[') : line.head? = some '[' := by
  rw [processEscapeChar.eq_def] at bracket
  split at bracket <;> simp_all

theorem readLine_title {raw next : Text} (title : titleOf raw = some next) :
    readLine o r raw = (r.stored.close o r.curSection r.itemGroup r.inIsolatedSection next).map fun stored =>
      ({ stored := stored, thisSection := next, curSection := next, itemGroup := [],
         inExcludedSection := chkIgnore o next, inDirectSaveSection := chkDirectSave o next, inIsolatedSection := false }, true) := by
  rw [titleOf, Option.ite_none_right_eq_some, Option.some.injEq] at title
  obtain ⟨bracketed, rfl⟩ := title
  have opened : (raw.rdropWhile isSpace).head? = some '[' := by
    rw [isTitle, Bool.and_eq_true, decide_eq_true_eq] at bracketed
    exact head_processEscapeChar bracketed.1
  obtain ⟨rest, same⟩ := List.head?_eq_some_iff.mp opened
  have code : isComment (raw.rdropWhile isSpace) = false := by
    rw [same]
    rfl
  rw [readLine]
  simp only [code, Bool.false_eq_true, false_and, if_false, bracketed, if_true]
  cases r.stored.close o r.curSection r.itemGroup r.inIsolatedSection
    (((processEscapeChar (raw.rdropWhile isSpace)).drop 1).take ((raw.rdropWhile isSpace).length - 2)) <;> rfl

theorem readLine_other {raw : Text} {next : Reader} {checked : Bool} (title : titleOf raw = none)
    (ok : readLine o r raw = .ok (next, checked)) :
    next = { r with itemGroup := r.itemGroup ++
      (lineItem o r.inExcludedSection r.inDirectSaveSection (r.curSection ≠ []) raw).toList } ∧
    (r.curSection = [] → lineItem o r.inExcludedSection r.inDirectSaveSection false raw = none) := by
  have plain : isTitle (processEscapeChar (raw.rdropWhile isSpace)) (raw.rdropWhile isSpace).length = false := by
    rw [titleOf] at title
    by_contra bracketed
    simp [Bool.not_eq_false _ ▸ bracketed] at title
  rw [readLine] at ok
  simp only [plain, Bool.false_eq_true, if_false] at ok
  rw [lineItem, lineItem]
  by_cases skipped : (isComment (raw.rdropWhile isSpace)) = true ∧ (!r.inDirectSaveSection) = true
  · rw [if_pos skipped] at ok ⊢
    cases ok
    exact ⟨by simp, fun _ => if_pos skipped⟩
  rw [if_neg skipped] at ok
  simp only [if_neg skipped]
  by_cases whole : ((o.storeAnyLine = true ∧ (raw.rdropWhile isSpace).idxOf? '=' = none) ∨ r.inDirectSaveSection = true) ∧
      (!r.inExcludedSection) = true ∧ r.curSection ≠ []
  · rw [if_pos whole] at ok
    cases ok
    refine ⟨?_, fun unnamed => absurd unnamed whole.2.2⟩
    rw [if_pos ⟨whole.1, whole.2.1, decide_eq_true whole.2.2⟩]
    rfl
  have bare : ¬(((o.storeAnyLine = true ∧ (raw.rdropWhile isSpace).idxOf? '=' = none) ∨ r.inDirectSaveSection = true) ∧
      (!r.inExcludedSection) = true ∧ decide (r.curSection ≠ []) = true) := by
    simpa using whole
  rw [if_neg whole] at ok
  rw [if_neg bare]
  cases posEqual : (raw.rdropWhile isSpace).idxOf? '=' with
  | none =>
    rw [posEqual] at ok
    cases ok
    simp
  | some pos =>
    rw [posEqual] at ok
    by_cases excluded : r.inExcludedSection = true
    · simp only [if_pos excluded] at ok ⊢
      cases ok
      simp
    · simp only [if_neg excluded] at ok ⊢
      split at ok
      next => cases ok
      next named =>
        cases ok
        simp [named]

section Runs

variable {s final : Stored} {lines : List Text}

theorem blocksFrom_title (name : Text) (excluded direct isolated : Bool) (items : Items) (lines : List Text) :
    (blocksFrom o name excluded direct isolated items lines).1.title = name := by
  induction lines generalizing items with
  | nil => rfl
  | cons line rest ih =>
    rw [blocksFrom]
    split
    next => rfl
    next => exact ih _

theorem readLines_blocks (fits : r.thisSection = if r.inIsolatedSection then [] else r.curSection)
    (unnamed : r.curSection = [] → r.itemGroup = []) (unfinished : allIncluded o r.stored = false)
    (ok : readLines o r lines = .ok final) :
    let blocks := blocksFrom o r.curSection r.inExcludedSection r.inDirectSaveSection r.inIsolatedSection r.itemGroup lines
    storeBlocks o r.stored blocks.1 blocks.2 = .ok final := by
  induction lines generalizing r with
  | nil =>
    rw [readLines, fits] at ok
    rw [blocksFrom]
    dsimp only
    rw [storeBlocks, if_neg fun both => both.2 (unnamed both.1)]
    exact ok
  | cons line rest ih =>
    rw [readLines] at ok
    rw [blocksFrom]
    cases title : titleOf line with
    | some next =>
      rw [readLine_title title] at ok
      dsimp only
      rw [storeBlocks, if_neg fun both => both.2 (unnamed both.1)]
      dsimp only
      rw [blocksFrom_title]
      cases closed : r.stored.close o r.curSection r.itemGroup r.inIsolatedSection next with
      | error code =>
        rw [closed] at ok
        cases ok
      | ok stored =>
        rw [closed] at ok
        change (if true = true ∧ allIncluded o stored = true then stored.closeLast o next [] false next
          else readLines o _ rest) = _ at ok
        change (if allIncluded o stored = true then stored.closeLast o next [] false next else storeBlocks o stored _ _) = _
        by_cases included : allIncluded o stored = true
        · rw [if_pos ⟨rfl, included⟩] at ok
          rw [if_pos included, ok]
        · rw [if_neg fun both => included both.2] at ok
          rw [if_neg included]
          exact ih rfl (fun _ => rfl) (Bool.not_eq_true _ ▸ included) ok
    | none =>
      dsimp only
      cases read : readLine o r line with
      | error code =>
        rw [read] at ok
        cases ok
      | ok result =>
        obtain ⟨next, checked⟩ := result
        rw [read] at ok
        obtain ⟨rfl, nameless⟩ := readLine_other title read
        change (if checked = true ∧ allIncluded o r.stored = true then _ else readLines o _ rest) = _ at ok
        rw [unfinished, if_neg fun both => Bool.false_ne_true both.2] at ok
        refine ih (r := { r with itemGroup := r.itemGroup ++ (lineItem o r.inExcludedSection r.inDirectSaveSection
          (r.curSection ≠ []) line).toList }) fits (fun none' => ?_) unfinished ok
        have here : r.curSection = [] := none'
        have quiet := nameless here
        simp [here, unnamed here, quiet]

end Runs

end Reading

section Losses

variable {o : Options}

def Stored.items (s : Stored) (name : Text) : Items := (Keyed.find name s.iniContent).getD []

def itemsUnder (name : Text) (blocks : List Block) : Items := (blocks.filter fun block => block.title = name).flatMap Block.items

def valuesOf (name : Text) (items : Items) : List Text := (items.filter fun item => item.1 = name).map Prod.snd

def SameItems (left right : Items) : Prop := ∀ name, valuesOf name left = valuesOf name right

structure Ordered (s : Stored) : Prop where
  once : s.sectionOrder.Nodup
  same : s.iniContent.map Prod.fst = s.sectionOrder

-- Whether the block becomes a section of its own when the next title is reached.
def opens (o : Options) (seen : List Text) (block : Block) (next : Text) : Bool :=
  finished o block.title block.items && block.title ∉ seen && (!block.isolated || o.isolatedItemsSection ≠ next)

def Lossless (o : Options) (seen read : List Text) (block : Block) : List Block → Prop
  | [] => True
  | next :: later =>
    (block.items ≠ [] → opens o seen block next.title) ∧
      let opened := opens o seen block next.title
      let seen := if opened then seen ++ [block.title] else seen
      let read := if opened ∧ block.items ≠ [] then read ++ [block.title] else read
      if o.includeSections ≠ [] ∧ o.includeSections = read then ∀ unread ∈ next :: later, unread.items = []
      else Lossless o seen read next later

theorem ordered_insert {s : Stored} (ordered : Ordered s) {name : Text} (absent : Keyed.find name s.iniContent = none)
    (group : Items) : Ordered (s.insert name group) := by
  have new := Keyed.find_eq_none_iff.mp absent
  have fresh : name ∉ s.sectionOrder := ordered.same ▸ new
  refine ⟨?_, ?_⟩
  · rw [Stored.insert, if_neg fresh]
    exact List.Nodup.append ordered.once (List.nodup_singleton name) (by simpa using fresh)
  · rw [Stored.insert, if_neg fresh]
    simp [Keyed.keys_put, fresh, ordered.same]

theorem items_insert {s : Stored} {name : Text} (absent : Keyed.find name s.iniContent = none) (group : Items) (other : Text) :
    (s.insert name group).items other = s.items other ++ if other = name then group else [] := by
  have new := Keyed.find_eq_none_iff.mp absent
  have put : (s.insert name group).iniContent = s.iniContent ++ [(name, group)] := Keyed.put_of_not_mem new
  have split : Keyed.find other (s.iniContent ++ [(name, group)]) =
      (Keyed.find other s.iniContent).or (if name = other then some group else none) := by
    rw [Keyed.find, List.find?_append, Option.map_or, Keyed.find]
    by_cases same : name = other <;> simp [same]
  rw [Stored.items, put, split, Stored.items]
  by_cases same : other = name
  · rw [same, absent, if_pos rfl, if_pos rfl]
    rfl
  · rw [if_neg (Ne.symm same), if_neg same, Option.or_none, List.append_nil]

def Stored.behind (o : Options) (s : Stored) (block : Block) (next : Text) : Stored :=
  if opens o s.sectionOrder block next then s.insert block.title block.items else s

theorem close_spec {s closed : Stored} {block : Block} {next : Text} (dup : o.allowDupSectionTitles = true) (ordered : Ordered s)
    (ok : s.close o block.title block.items block.isolated next = .ok closed) :
    closed = s.behind o block next := by
  have known : block.title ∈ s.sectionOrder ↔ Keyed.find block.title s.iniContent ≠ none := by
    rw [← ordered.same, Ne, Keyed.find_eq_none_iff, not_not]
  rw [Stored.close] at ok
  rw [Stored.behind, opens]
  by_cases done : finished o block.title block.items = true
  · rw [done, Bool.not_true, if_neg Bool.false_ne_true] at ok
    rw [done, Bool.true_and]
    cases there : Keyed.find block.title s.iniContent with
    | some existing =>
      rw [there] at ok
      dsimp only at ok
      rw [if_pos (.inl dup)] at ok
      cases ok
      have seen : block.title ∈ s.sectionOrder := known.mpr (by simp [there])
      simp [seen]
    | none =>
      rw [there] at ok
      have unseen : block.title ∉ s.sectionOrder := by simp [known, there]
      simp only [unseen, not_false_eq_true, decide_true, Bool.true_and]
      dsimp only at ok
      split at ok
      next kept =>
        cases ok
        rw [if_pos (by simpa using kept)]
      next dropped =>
        cases ok
        rw [if_neg (by simpa using dropped)]
  · rw [Bool.not_eq_true] at done
    rw [done, Bool.not_false, if_pos rfl] at ok
    cases ok
    rw [done, Bool.false_and, Bool.false_and, if_neg Bool.false_ne_true]

theorem fresh_of_opens {seen : List Text} {block : Block} {next : Text} (opened : opens o seen block next = true) :
    block.title ∉ seen := by
  rw [opens, Bool.and_eq_true, Bool.and_eq_true, decide_eq_true_eq] at opened
  exact opened.1.2

section Behind

variable {s : Stored} {block : Block} {next : Text}

theorem absent_of_opens (ordered : Ordered s) (opened : opens o s.sectionOrder block next = true) :
    Keyed.find block.title s.iniContent = none := by
  rw [Keyed.find_eq_none_iff, ordered.same]
  exact fresh_of_opens opened

theorem ordered_behind (ordered : Ordered s) : Ordered (s.behind o block next) := by
  rw [Stored.behind]
  split
  next opened => exact ordered_insert ordered (absent_of_opens ordered opened) _
  next => exact ordered

theorem sectionOrder_behind : (s.behind o block next).sectionOrder =
    if opens o s.sectionOrder block next then s.sectionOrder ++ [block.title] else s.sectionOrder := by
  rw [Stored.behind]
  split
  next opened => exact if_neg (fresh_of_opens opened)
  next => rfl

theorem readSections_behind : (s.behind o block next).readSections =
    if opens o s.sectionOrder block next ∧ block.items ≠ [] then s.readSections ++ [block.title] else s.readSections := by
  rw [Stored.behind]
  by_cases opened : opens o s.sectionOrder block next = true
  · simp only [opened, true_and]
    rfl
  · simp only [opened, Bool.false_eq_true, if_false, false_and]

theorem items_behind (ordered : Ordered s) (name : Text) : (s.behind o block next).items name =
    s.items name ++ if opens o s.sectionOrder block next ∧ name = block.title then block.items else [] := by
  rw [Stored.behind]
  by_cases opened : opens o s.sectionOrder block next = true
  · rw [if_pos opened, items_insert (absent_of_opens ordered opened)]
    simp only [opened, true_and]
  · simp [opened]

end Behind

theorem closeLast_spec {s final : Stored} {name last : Text} {items : Items} {isolated : Bool} (dup : o.allowDupSectionTitles = true)
    (ordered : Ordered s) (titled : name = [] → items = []) (apart : isolated = true → o.isolatedItemsSection ≠ last)
    (ok : s.closeLast o name items isolated last = .ok final) :
    Ordered final ∧ ∀ other, final.items other = s.items other ++ if other = name then items else [] := by
  rw [Stored.closeLast] at ok
  by_cases done : finished o name items = true
  · rw [done, Bool.not_true, if_neg Bool.false_ne_true] at ok
    cases there : Keyed.find name s.iniContent with
    | some existing =>
      rw [there] at ok
      dsimp only at ok
      rw [if_pos (.inl dup)] at ok
      cases ok
      have present : name ∈ s.iniContent.map Prod.fst := List.mem_map_of_mem (Keyed.mem_of_find there)
      refine ⟨⟨ordered.once, ?_⟩, fun other => ?_⟩
      · rw [Keyed.keys_put, if_pos present]
        exact ordered.same
      · rw [Stored.items, Stored.items]
        by_cases same : other = name
        · rw [same, Keyed.find_put, there, if_pos rfl]
          rfl
        · rw [Keyed.find_put_of_ne same, if_neg same, List.append_nil]
    | none =>
      rw [there] at ok
      dsimp only at ok
      have kept : (!isolated) = true ∨ o.isolatedItemsSection ≠ last := by
        cases isolated with
        | false => exact .inl rfl
        | true => exact .inr (apart rfl)
      rw [if_pos kept] at ok
      cases ok
      exact ⟨ordered_insert ordered there items, items_insert there items⟩
  · have unfinished : (!finished o name items) = true := by simpa using done
    rw [if_pos unfinished] at ok
    cases ok
    have nothing : items = [] := by
      by_contra some'
      exact done (by simp [finished, some', mt titled some'])
    exact ⟨ordered, fun other => by simp [nothing]⟩

theorem itemsUnder_cons (name : Text) (block : Block) (rest : List Block) :
    itemsUnder name (block :: rest) = (if name = block.title then block.items else []) ++ itemsUnder name rest := by
  by_cases same : block.title = name
  · simp [itemsUnder, same]
  · simp [itemsUnder, same, Ne.symm same]

theorem itemsUnder_eq_nil {rest : List Block} : (∀ name, itemsUnder name rest = []) ↔ ∀ block ∈ rest, block.items = [] := by
  constructor
  · intro none' block there
    have here := none' block.title
    rw [itemsUnder, List.flatMap_eq_nil_iff] at here
    exact here block (List.mem_filter.mpr ⟨there, decide_eq_true rfl⟩)
  · intro empty name
    rw [itemsUnder, List.flatMap_eq_nil_iff]
    exact fun block there => empty block (List.mem_filter.mp there).1

section Whole

variable {s final : Stored} {block : Block} {rest : List Block}

theorem storeBlocks_cons {next : Block} {later : List Block} (dup : o.allowDupSectionTitles = true) (ordered : Ordered s)
    (ok : storeBlocks o s block (next :: later) = .ok final) :
    (block.title = [] → block.items = []) ∧
    (if allIncluded o (s.behind o block next.title) then
      (s.behind o block next.title).closeLast o next.title [] false next.title
    else storeBlocks o (s.behind o block next.title) next later) = .ok final := by
  rw [storeBlocks] at ok
  split at ok
  next => cases ok
  next titled =>
    refine ⟨fun nameless => by simpa [nameless] using titled, ?_⟩
    cases closed : s.close o block.title block.items block.isolated next.title with
    | error code =>
      rw [closed] at ok
      cases ok
    | ok after =>
      rw [closed] at ok
      rw [← close_spec dup ordered closed]
      exact ok

theorem storeBlocks_nil (dup : o.allowDupSectionTitles = true) (ordered : Ordered s)
    (apart : block.isolated = true → o.isolatedItemsSection ≠ []) (ok : storeBlocks o s block [] = .ok final) :
    Ordered final ∧ ∀ name, final.items name = s.items name ++ itemsUnder name [block] := by
  rw [storeBlocks] at ok
  split at ok
  next => cases ok
  next titled =>
    have spec := closeLast_spec dup ordered (fun nameless => by simpa [nameless] using titled)
      (fun isolated => by rw [if_pos isolated]; exact apart isolated) ok
    refine ⟨spec.1, fun name => ?_⟩
    rw [spec.2, itemsUnder_cons, itemsUnder, List.filter_nil, List.flatMap_nil, List.append_nil]

theorem lossless_cons {next : Block} {later : List Block} :
    Lossless o s.sectionOrder s.readSections block (next :: later) ↔
      (block.items ≠ [] → opens o s.sectionOrder block next.title = true) ∧
      if allIncluded o (s.behind o block next.title) then ∀ unread ∈ next :: later, unread.items = []
      else Lossless o (s.behind o block next.title).sectionOrder (s.behind o block next.title).readSections next later := by
  rw [Lossless, sectionOrder_behind, allIncluded, readSections_behind]
  simp only [Bool.and_eq_true, decide_eq_true_eq]

theorem storeBlocks_bounds (dup : o.allowDupSectionTitles = true) (ordered : Ordered s)
    (apart : block.isolated = true → o.isolatedItemsSection ≠ []) (plain : ∀ later ∈ rest, later.isolated = false)
    (ok : storeBlocks o s block rest = .ok final) :
    Ordered final ∧ ∀ name, (final.items name).length ≤ (s.items name ++ itemsUnder name (block :: rest)).length := by
  induction rest generalizing s block with
  | nil =>
    obtain ⟨listed, same⟩ := storeBlocks_nil dup ordered apart ok
    exact ⟨listed, fun name => (congrArg List.length (same name)).le⟩
  | cons next later ih =>
    obtain ⟨-, ok⟩ := storeBlocks_cons dup ordered ok
    have kept (name : Text) : ((s.behind o block next.title).items name).length ≤
        (s.items name).length + (if name = block.title then block.items else []).length := by
      rw [items_behind ordered, List.length_append]
      split
      next both => rw [if_pos both.2]
      next => simp
    split at ok
    next =>
      obtain ⟨listed, same⟩ := closeLast_spec dup (ordered_behind ordered) (fun _ => rfl) (fun isolated => by cases isolated) ok
      refine ⟨listed, fun name => ?_⟩
      have here := kept name
      rw [same, itemsUnder_cons]
      simp only [ite_self, List.append_nil, List.length_append]
      omega
    next =>
      rw [List.forall_mem_cons] at plain
      obtain ⟨listed, bound⟩ := ih (ordered_behind ordered) (fun isolated => by simp [plain.1] at isolated) plain.2 ok
      refine ⟨listed, fun name => ?_⟩
      have here := kept name
      have there := bound name
      rw [itemsUnder_cons]
      simp only [List.length_append] at there ⊢
      omega

theorem storeBlocks_of_lossless (dup : o.allowDupSectionTitles = true) (ordered : Ordered s)
    (apart : block.isolated = true → o.isolatedItemsSection ≠ []) (plain : ∀ later ∈ rest, later.isolated = false)
    (lossless : Lossless o s.sectionOrder s.readSections block rest) (ok : storeBlocks o s block rest = .ok final) (name : Text) :
    final.items name = s.items name ++ itemsUnder name (block :: rest) := by
  induction rest generalizing s block with
  | nil => exact (storeBlocks_nil dup ordered apart ok).2 name
  | cons next later ih =>
    obtain ⟨-, ok⟩ := storeBlocks_cons dup ordered ok
    obtain ⟨opened, after⟩ := lossless_cons.mp lossless
    have kept : (s.behind o block next.title).items name = s.items name ++ if name = block.title then block.items else [] := by
      rw [items_behind ordered]
      by_cases empty : block.items = []
      · simp [empty]
      · simp [opened empty]
    rw [itemsUnder_cons, ← List.append_assoc, ← kept]
    split at ok
    next included =>
      rw [if_pos included] at after
      obtain ⟨-, same⟩ := closeLast_spec dup (ordered_behind ordered) (fun _ => rfl) (fun isolated => by cases isolated) ok
      rw [same, itemsUnder_eq_nil.mpr after]
      simp
    next unfinished =>
      rw [if_neg unfinished] at after
      rw [List.forall_mem_cons] at plain
      exact ih (ordered_behind ordered) (fun isolated => by simp [plain.1] at isolated) plain.2 after ok

theorem lossless_of_lengths (dup : o.allowDupSectionTitles = true) (ordered : Ordered s)
    (apart : block.isolated = true → o.isolatedItemsSection ≠ []) (plain : ∀ later ∈ rest, later.isolated = false)
    (ok : storeBlocks o s block rest = .ok final)
    (all : ∀ name, (final.items name).length = (s.items name ++ itemsUnder name (block :: rest)).length) :
    Lossless o s.sectionOrder s.readSections block rest := by
  induction rest generalizing s block with
  | nil => trivial
  | cons next later ih =>
    obtain ⟨-, ok⟩ := storeBlocks_cons dup ordered ok
    rw [lossless_cons]
    split at ok
    next included =>
      obtain ⟨-, same⟩ := closeLast_spec dup (ordered_behind ordered) (fun _ => rfl) (fun isolated => by cases isolated) ok
      have lengths (name : Text) : (if opens o s.sectionOrder block next.title ∧ name = block.title then block.items else []).length =
          (if name = block.title then block.items else []).length + (itemsUnder name (next :: later)).length := by
        have here := all name
        rw [same, items_behind ordered, itemsUnder_cons name block] at here
        simp only [ite_self, List.append_nil, List.length_append] at here
        omega
      rw [if_pos included]
      refine ⟨fun filled => ?_, itemsUnder_eq_nil.mp fun name => ?_⟩
      · have here := lengths block.title
        by_contra shut
        have some' := List.length_pos_of_ne_nil filled
        simp [shut] at here
        omega
      · have here := lengths name
        rw [← List.length_eq_zero_iff]
        split at here
        next both =>
          rw [if_pos both.2] at here
          omega
        next =>
          rw [List.length_nil] at here
          omega
    next unfinished =>
      rw [List.forall_mem_cons] at plain
      have isolated : next.isolated = true → o.isolatedItemsSection ≠ [] := fun isolated => by simp [plain.1] at isolated
      have bound := (storeBlocks_bounds dup (ordered_behind ordered) isolated plain.2 ok).2
      have lengths (name : Text) : (if name = block.title then block.items else []).length ≤
          (if opens o s.sectionOrder block next.title ∧ name = block.title then block.items else []).length := by
        have here := all name
        have there := bound name
        rw [itemsUnder_cons name block] at here
        rw [items_behind ordered] at there
        simp only [List.length_append] at here there
        omega
      rw [if_neg unfinished]
      have opened : block.items ≠ [] → opens o s.sectionOrder block next.title = true := by
        intro filled
        by_contra shut
        have here := lengths block.title
        simp [shut] at here
        exact filled here
      refine ⟨opened, ih (ordered_behind ordered) isolated plain.2 ok fun name => ?_⟩
      rw [all name, itemsUnder_cons name block, items_behind ordered, ← List.append_assoc]
      by_cases empty : block.items = []
      · simp [empty]
      · simp [opened empty]

end Whole

section Texts

variable {content : Text} {final : Stored}

theorem perm_of_sameItems {left right : Items} (same : SameItems left right) : left.Perm right := by
  have count (items : Items) (item : Text × Text) : items.count item = (valuesOf item.1 items).count item.2 := by
    induction items with
    | nil => rfl
    | cons first rest ih =>
      rw [List.count_cons, ih, valuesOf, valuesOf, List.filter_cons]
      by_cases named : first.1 = item.1
      · simp [named, List.count_cons, Prod.ext_iff]
      · simp [named, Prod.ext_iff]
  exact List.perm_iff_count.mpr fun item => by rw [count, count, same]

theorem blocksFrom_plain (name : Text) (excluded direct isolated : Bool) (items : Items) (lines : List Text) :
    (blocksFrom o name excluded direct isolated items lines).1.isolated = isolated ∧
      ∀ later ∈ (blocksFrom o name excluded direct isolated items lines).2, later.isolated = false := by
  induction lines generalizing name excluded direct isolated items with
  | nil => exact ⟨rfl, fun later there => by cases there⟩
  | cons line rest ih =>
    rw [blocksFrom]
    split
    next next _ =>
      have after := ih next (chkIgnore o next) (chkDirectSave o next) false []
      exact ⟨rfl, List.forall_mem_cons.mpr after⟩
    next => exact ih name excluded direct isolated _

theorem parse_blocks (ok : parse o content = .ok final) :
    storeBlocks o {} (blocksOf o content).1 (blocksOf o content).2 = .ok final := by
  rw [parse] at ok
  split at ok
  next => cases ok
  next =>
    have start : (startReader o).stored = {} := by
      rw [startReader]
      split <;> rfl
    have fits : (startReader o).thisSection = if (startReader o).inIsolatedSection then [] else (startReader o).curSection := by
      rw [startReader]
      split <;> rfl
    have nothing : (startReader o).itemGroup = [] := by
      rw [startReader]
      split <;> rfl
    have unfinished : allIncluded o (startReader o).stored = false := by
      rw [start, allIncluded]
      by_cases none' : o.includeSections = [] <;> simp [none']
    have blocks := readLines_blocks fits (fun _ => nothing) unfinished ok
    rwa [start, nothing] at blocks

theorem blocksOf_apart (isolated : (blocksOf o content).1.isolated = true) : o.isolatedItemsSection ≠ [] := by
  rw [blocksOf, (blocksFrom_plain _ _ _ _ _ _).1, startReader] at isolated
  split at isolated
  next named => exact named.2
  next => cases isolated

theorem parse_merges_iff (dup : o.allowDupSectionTitles = true) (ok : parse o content = .ok final) :
    ((∀ name, SameItems (final.items name) (itemsUnder name ((blocksOf o content).1 :: (blocksOf o content).2))) ∧
      final.sectionOrder.Nodup ∧ ∀ name, name ∈ final.sectionOrder ↔ name ∈ final.iniContent.map Prod.fst) ↔
    Lossless o [] [] (blocksOf o content).1 (blocksOf o content).2 := by
  have blocks := parse_blocks ok
  have ordered : Ordered {} := ⟨List.nodup_nil, rfl⟩
  have plain : ∀ later ∈ (blocksOf o content).2, later.isolated = false := (blocksFrom_plain _ _ _ _ _ _).2
  constructor
  · rintro ⟨same, -⟩
    refine lossless_of_lengths dup ordered blocksOf_apart plain blocks fun name => ?_
    exact (perm_of_sameItems (same name)).length_eq
  · intro lossless
    obtain ⟨listed, -⟩ := storeBlocks_bounds dup ordered blocksOf_apart plain blocks
    refine ⟨fun name => ?_, listed.once, fun name => by rw [listed.same]⟩
    have all := storeBlocks_of_lossless dup ordered blocksOf_apart plain lossless blocks name
    rw [show final.items name = _ from all]
    exact fun _ => rfl

theorem parse_merges_iff_last :
    (parse { allowDupSectionTitles := true } (chars "[a]\nx=1\n[b]\ny=2\n[a]\nx=3\n")).toOption.map (·.items ['a']) =
      some [(['x'], ['1']), (['x'], ['3'])] ∧
    ∃ final, parse { allowDupSectionTitles := true } (chars "[a]\nx=1\n[b]\ny=2\n[a]\nx=3\n") = .ok final ∧
      ∀ name, SameItems (final.items name) (itemsUnder name
        [⟨[], [], false⟩, ⟨['a'], [(['x'], ['1'])], false⟩, ⟨['b'], [(['y'], ['2'])], false⟩, ⟨['a'], [(['x'], ['3'])], false⟩]) := by
  refine ⟨by decide, ?_⟩
  cases ok : parse { allowDupSectionTitles := true } (chars "[a]\nx=1\n[b]\ny=2\n[a]\nx=3\n") with
  | error code =>
    have accepted : (parse { allowDupSectionTitles := true } (chars "[a]\nx=1\n[b]\ny=2\n[a]\nx=3\n")).toOption ≠ none := by
      decide
    rw [ok] at accepted
    exact absurd rfl accepted
  | ok final =>
    have blocks : blocksOf { allowDupSectionTitles := true } (chars "[a]\nx=1\n[b]\ny=2\n[a]\nx=3\n") =
        (⟨[], [], false⟩, [⟨['a'], [(['x'], ['1'])], false⟩, ⟨['b'], [(['y'], ['2'])], false⟩, ⟨['a'], [(['x'], ['3'])], false⟩]) := by
      decide
    have merged := (parse_merges_iff rfl ok).mpr
    rw [blocks] at merged
    refine ⟨final, rfl, (merged ?_).1⟩
    simp [Lossless, opens, finished]

theorem repeated_block_lost :
    ((parse { allowDupSectionTitles := true } (chars "[a]\nx=1\n[a]\ny=2\n[b]\n")).toOption.map (·.items ['a'])) =
      some [(['x'], ['1'])] ∧
    itemsUnder ['a'] ((blocksOf { allowDupSectionTitles := true } (chars "[a]\nx=1\n[a]\ny=2\n[b]\n")).1 ::
      (blocksOf { allowDupSectionTitles := true } (chars "[a]\nx=1\n[a]\ny=2\n[b]\n")).2) = [(['x'], ['1']), (['y'], ['2'])] := by
  decide

end Texts

end Losses

end SubConverter.Utils.IniReader
