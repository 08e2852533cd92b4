import SubConverter.Lib.Stripped
import SubConverter.Handler.UserRules

set_option autoImplicit false

namespace SubConverter.Web

open Handler (isSpace parseInlineRules inlineRulesOf)

section Rows

structure InlineRuleRow where
  type : Text
  value : Text
  group : Text
deriving DecidableEq, Repr

-- The white space and line terminators that `String.prototype.trim` removes.
def isBlank (c : Char) : Bool :=
  c ∈ ['\t', '\n', '\x0b', '\x0c', '\r', ' ', '\u00a0', '\u1680', '\u2028', '\u2029', '\u202f', '\u205f', '\u3000', '\ufeff'] ||
    ('\u2000' ≤ c && c ≤ '\u200a')

def trim (text : Text) : Text := strip isBlank text

def readRule (group rule : Text) : Option InlineRuleRow :=
  let ruleTrimmed := trim rule
  if ruleTrimmed = [] ∨ ruleTrimmed.head? = some '#' then none
  else
    match cutAt [','] ruleTrimmed with
    | none => none
    | some (left, right) =>
      let type := trim left
      let valuePart := trim right
      if type = [] ∨ valuePart = [] then none else some ⟨type, valuePart, group⟩

-- The body of the loop of `parseInlineRuleRows`.
def readSection (part : Text) : List InlineRuleRow :=
  let trimmed := trim part
  if trimmed = [] ∨ trimmed.head? = some '#' then []
  else
    match cutAt [':'] trimmed with
    | none => []
    | some (header, rulesBlob) =>
      let group := trim header
      if group = [] ∨ rulesBlob = [] then [] else (rulesBlob.splitOn '|').filterMap (readRule group)

def parseInlineRuleRows (value : Text) : List InlineRuleRow :=
  if value = [] then [] else (value.splitOn ';').flatMap readSection

/-- The variables of the loop of `serializeInlineRuleRows`. -/
structure Folding where
  sections : List Text := []
  currentGroup : Text := []
  currentRules : List Text := []

def Folding.flush (s : Folding) : Folding :=
  if s.currentGroup ≠ [] ∧ s.currentRules ≠ [] then
    ⟨s.sections ++ [s.currentGroup ++ ':' :: ['|'].intercalate s.currentRules], [], []⟩
  else ⟨s.sections, [], []⟩

def InlineRuleRow.trimmed (row : InlineRuleRow) : InlineRuleRow := ⟨trim row.type, trim row.value, trim row.group⟩

def InlineRuleRow.rule (row : InlineRuleRow) : Text := row.type ++ ',' :: row.value

def Folding.add (s : Folding) (row : InlineRuleRow) : Folding :=
  let row := row.trimmed
  if row.type = [] ∨ row.value = [] ∨ row.group = [] then s
  else
    let s := if row.group ≠ s.currentGroup then { s.flush with currentGroup := row.group } else s
    { s with currentRules := s.currentRules ++ [row.rule] }

def serializeInlineRuleRows (rows : List InlineRuleRow) : Text := [';'].intercalate (rows.foldl Folding.add {}).flush.sections

example : serializeInlineRuleRows [⟨chars "GEOIP", chars " CN", ['A']⟩, ⟨chars "GEOIP", chars "US", ['A']⟩, ⟨['X'], [], ['A']⟩,
    ⟨['X'], ['y'], ['B']⟩] = chars "A:GEOIP,CN|GEOIP,US;B:X,y" := by
  decide

end Rows

section Pieces

def piecesOf (part : Text) : List (Text × Text) :=
  match cutAt [':'] part with
  | none => []
  | some (header, rulesBlob) => (rulesBlob.splitOn '|').map fun rule => (header, rule)

def rulePieces (wire : Text) : List (Text × Text) := (wire.splitOn ';').flatMap piecesOf

-- What is neither empty nor a comment.
def Stands (text : Text) : Prop := text ≠ [] ∧ text.head? ≠ some '#'

instance (text : Text) : Decidable (Stands text) := inferInstanceAs (Decidable (_ ∧ _))

def rowOf (piece : Text × Text) : Option InlineRuleRow :=
  if Stands (trim piece.1) then readRule (trim piece.1) piece.2 else none

theorem stands_iff {text : Text} : Stands text ↔ ¬(text = [] ∨ text.head? = some '#') := not_or.symm

theorem stands_cut {drop : Char → Bool} {mark : Char} (kept : drop mark = false) {part header rest : Text}
    (cut : cutAt [mark] part = some (header, rest)) (named : strip drop header ≠ []) :
    Stands (strip drop part) ↔ Stands (strip drop header) := by
  have whole := (cutAt_mark_iff.mp cut).1
  have opened : header.dropWhile drop ≠ [] := by
    rwa [Ne, List.dropWhile_eq_nil_iff, ← strip_eq_nil_iff]
  have long : strip drop part ≠ [] := by
    rw [whole, strip_marked kept]
    simp
  rw [Stands, Stands, head?_strip header, whole, strip_marked kept, List.head?_append_of_ne_nil _ opened]
  simp [named]

theorem bar_behind {drop : Char → Bool} (bar : drop '|' = false) {back : Text} (blank : ∀ c ∈ back, drop c) : '|' ∉ back := by
  intro there
  have dropped := blank '|' there
  rw [bar] at dropped
  cases dropped

section Interface

theorem readRule_back {group back : Text} (blank : ∀ c ∈ back, isBlank c) (rule : Text) :
    readRule group (rule ++ back) = readRule group rule := by
  rw [readRule, readRule, trim, strip_back blank, trim]

theorem readSection_eq (part : Text) : readSection part = (piecesOf part).filterMap rowOf := by
  have colon : isBlank ':' = false := by decide
  rw [readSection, piecesOf, trim, cutAt_strip colon]
  cases cut : cutAt [':'] part with
  | none => simp
  | some parts =>
    obtain ⟨header, rulesBlob⟩ := parts
    obtain ⟨back, whole, blank⟩ := rdropWhile_spec isBlank rulesBlob
    have rules : ∀ group, (rulesBlob.splitOn '|').filterMap (readRule group) =
        ((rulesBlob.rdropWhile isBlank).splitOn '|').filterMap (readRule group) := by
      intro group
      conv_lhs => rw [whole]
      exact filterMap_splitOn_back (bar_behind (by decide) blank) (readRule_back blank) _
    simp only [Option.map_some, trim, strip_dropWhile, List.filterMap_map]
    by_cases named : strip isBlank header = []
    · simp [named, rowOf, Stands, trim, Function.comp_def]
    have stands := stands_cut colon cut named
    by_cases kept : Stands (strip isBlank header)
    · have row : rowOf ∘ (fun rule => (header, rule)) = readRule (strip isBlank header) := by
        funext rule
        simp [rowOf, trim, kept]
      rw [if_neg (stands_iff.mp (stands.mpr kept)), row, rules]
      by_cases bare : rulesBlob.rdropWhile isBlank = []
      · simp [bare, readRule, trim, strip]
      · simp [bare, named]
    · rw [if_pos (not_not.mp (stands_iff.not.mp (stands.not.mpr kept)))]
      simp [rowOf, trim, kept, Function.comp_def]

theorem parseInlineRuleRows_eq (wire : Text) : parseInlineRuleRows wire = (rulePieces wire).filterMap rowOf := by
  rw [parseInlineRuleRows, rulePieces, List.filterMap_flatMap]
  split
  next none => simp [none, piecesOf, cutAt]
  next => exact List.flatMap_congr fun part _ => readSection_eq part

end Interface

section Rereading

def Separable (row : InlineRuleRow) : Prop :=
  (';' ∉ row.group ∧ ':' ∉ row.group ∧ row.group.head? ≠ some '#') ∧
  (',' ∉ row.type ∧ '|' ∉ row.type ∧ ';' ∉ row.type ∧ row.type.head? ≠ some '#') ∧
  '|' ∉ row.value ∧ ';' ∉ row.value

instance (row : InlineRuleRow) : Decidable (Separable row) := inferInstanceAs (Decidable (_ ∧ _))

def Filled (row : InlineRuleRow) : Prop := trim row.type ≠ [] ∧ trim row.value ≠ [] ∧ trim row.group ≠ []

instance (row : InlineRuleRow) : Decidable (Filled row) := inferInstanceAs (Decidable (_ ∧ _))

theorem not_mem_trim {mark : Char} {text : Text} (absent : mark ∉ text) : mark ∉ trim text := by
  obtain ⟨front, back, whole, -, -⟩ := strip_spec isBlank text
  intro there
  rw [whole] at absent
  exact absent (by simp [show mark ∈ strip isBlank text from there])

theorem piece_separators {wire : Text} {piece : Text × Text} (there : piece ∈ rulePieces wire) :
    (';' ∉ piece.1 ∧ ':' ∉ piece.1) ∧ '|' ∉ piece.2 ∧ ';' ∉ piece.2 := by
  obtain ⟨part, among, inside⟩ := List.mem_flatMap.mp there
  have semicolon := not_mem_of_mem_splitOn among
  rw [piecesOf] at inside
  cases cut : cutAt [':'] part with
  | none => simp [cut] at inside
  | some parts =>
    obtain ⟨header, rulesBlob⟩ := parts
    obtain ⟨rfl, first⟩ := cutAt_mark_iff.mp cut
    simp only [List.mem_append, List.mem_cons, not_or] at semicolon
    simp only [cut, List.mem_map] at inside
    obtain ⟨rule, among, rfl⟩ := inside
    exact ⟨⟨semicolon.1, first⟩, not_mem_of_mem_splitOn among, fun there => semicolon.2.2 (mem_of_mem_splitOn among there)⟩

theorem readRule_some {group rule : Text} {row : InlineRuleRow} (read : readRule group rule = some row) :
    Stands row.type ∧ row.value ≠ [] ∧ row.group = group ∧
      ∃ left right, cutAt [','] (trim rule) = some (left, right) ∧ row.type = trim left ∧ row.value = trim right := by
  rw [readRule] at read
  dsimp only at read
  split at read
  next => cases read
  next stands =>
    cases cut : cutAt [','] (trim rule) with
    | none => simp [cut] at read
    | some parts =>
      obtain ⟨left, right⟩ := parts
      simp only [cut, Option.ite_none_left_eq_some, not_or, Option.some.injEq] at read
      obtain ⟨⟨typed, valued⟩, rfl⟩ := read
      have again : Stands (strip isBlank (trim rule)) := by
        rw [trim, strip_strip]
        exact stands_iff.mpr stands
      exact ⟨(stands_cut (by decide) cut typed).mp again, valued, rfl, left, right, rfl, rfl, rfl⟩

theorem separable_of_read {wire : Text} {row : InlineRuleRow} (there : row ∈ parseInlineRuleRows wire) : Separable row := by
  rw [parseInlineRuleRows_eq, List.mem_filterMap] at there
  obtain ⟨⟨header, rule⟩, piece, read⟩ := there
  obtain ⟨⟨semicolon, colon⟩, bar, semicolon'⟩ := piece_separators piece
  rw [rowOf, Option.ite_none_right_eq_some] at read
  obtain ⟨named, read⟩ := read
  obtain ⟨typed, -, group, left, right, cut, type, value⟩ := readRule_some read
  obtain ⟨whole, first⟩ := cutAt_mark_iff.mp cut
  have bars := not_mem_trim bar
  have semicolons := not_mem_trim semicolon'
  rw [whole] at bars semicolons
  simp only [List.mem_append, List.mem_cons, not_or] at bars semicolons
  rw [Separable, group]
  refine ⟨⟨not_mem_trim semicolon, not_mem_trim colon, named.2⟩, ⟨?_, ?_, ?_, typed.2⟩, ?_, ?_⟩
  · exact type ▸ not_mem_trim first
  · exact type ▸ not_mem_trim bars.1
  · exact type ▸ not_mem_trim semicolons.1
  · exact value ▸ not_mem_trim bars.2.2
  · exact value ▸ not_mem_trim semicolons.2.2

def InlineRuleRow.piece (row : InlineRuleRow) : Text × Text := (row.group, row.rule)

theorem strip_joined {mark : Char} {left right : Text} (first : trim left = left) (last : trim right = right)
    (present : right ≠ []) (opened : left ≠ []) : trim (left ++ mark :: right) = left ++ mark :: right := by
  apply strip_eq_self
  · intro c there
    rw [List.head?_append_of_ne_nil _ opened] at there
    exact (strip_ends isBlank left).1 c (by rwa [show strip isBlank left = left from first])
  · intro c there
    rw [List.getLast?_append_of_ne_nil _ (by simp), List.getLast?_cons_of_ne_nil present] at there
    exact (strip_ends isBlank right).2 c (by rwa [show strip isBlank right = right from last])

theorem rowOf_piece {row : InlineRuleRow} (filled : Filled row) (separable : Separable row.trimmed) :
    rowOf row.trimmed.piece = some row.trimmed := by
  obtain ⟨typed, valued, named⟩ := filled
  obtain ⟨⟨-, -, group⟩, ⟨comma, -, -, type⟩, -⟩ := separable
  have whole : trim row.trimmed.rule = row.trimmed.rule :=
    strip_joined (strip_strip _ _) (strip_strip _ _) valued typed
  have same : trim row.trimmed.group = row.trimmed.group := strip_strip _ _
  have cut : cutAt [','] row.trimmed.rule = some (row.trimmed.type, row.trimmed.value) := cutAt_mark_iff.mpr ⟨rfl, comma⟩
  have stands : Stands row.trimmed.rule := by
    refine ⟨by simp [InlineRuleRow.rule], ?_⟩
    have opened : row.trimmed.type ≠ [] := typed
    rwa [InlineRuleRow.rule, List.head?_append_of_ne_nil _ opened]
  rw [rowOf, InlineRuleRow.piece, same, if_pos ⟨named, group⟩, readRule, whole]
  dsimp only
  rw [if_neg (stands_iff.mp stands), cut]
  have left : trim row.trimmed.type = row.trimmed.type := strip_strip _ _
  have right : trim row.trimmed.value = row.trimmed.value := strip_strip _ _
  have filled : ¬(row.trimmed.type = [] ∨ row.trimmed.value = []) := not_or.mpr ⟨typed, valued⟩
  simp only [left, right, if_neg filled]

structure Wrote (s : Folding) (rows : List InlineRuleRow) : Prop where
  clean : ∀ text ∈ s.sections, ';' ∉ text
  pending : (s.currentGroup = [] ∧ s.currentRules = []) ∨
    (s.currentGroup ≠ [] ∧ ';' ∉ s.currentGroup ∧ ':' ∉ s.currentGroup) ∧ s.currentRules ≠ []
  rules : ∀ rule ∈ s.currentRules, ';' ∉ rule ∧ '|' ∉ rule
  pieces : s.sections.flatMap piecesOf ++ s.currentRules.map (fun rule => (s.currentGroup, rule)) =
    rows.map InlineRuleRow.piece

theorem flush_wrote {s : Folding} {rows : List InlineRuleRow} (wrote : Wrote s rows) :
    Wrote s.flush rows ∧ s.flush.currentGroup = [] ∧ s.flush.currentRules = [] := by
  rw [Folding.flush]
  rcases wrote.pending with ⟨group, rules⟩ | ⟨⟨named, semicolon, colon⟩, present⟩
  · rw [if_neg fun both => both.1 group]
    exact ⟨⟨wrote.clean, .inl ⟨rfl, rfl⟩, by simp, by simpa [rules] using wrote.pieces⟩, rfl, rfl⟩
  · rw [if_pos ⟨named, present⟩]
    have cut : cutAt [':'] (s.currentGroup ++ ':' :: ['|'].intercalate s.currentRules) =
        some (s.currentGroup, ['|'].intercalate s.currentRules) := cutAt_mark_iff.mpr ⟨rfl, colon⟩
    have split := List.splitOn_intercalate '|' (fun rule there => (wrote.rules rule there).2) present
    have blob : ';' ∉ ['|'].intercalate s.currentRules :=
      not_mem_intercalate (by decide) fun rule there => (wrote.rules rule there).1
    refine ⟨⟨?_, .inl ⟨rfl, rfl⟩, by simp, ?_⟩, rfl, rfl⟩
    · rw [List.forall_mem_append, List.forall_mem_singleton]
      exact ⟨wrote.clean, by simp [semicolon, blob]⟩
    · simpa [piecesOf, cut, split] using wrote.pieces

theorem push_wrote {s : Folding} {rows : List InlineRuleRow} {row : InlineRuleRow} (same : s.currentGroup = row.group)
    (named : row.group ≠ []) (separable : Separable row) (clean : ∀ text ∈ s.sections, ';' ∉ text)
    (rules : ∀ rule ∈ s.currentRules, ';' ∉ rule ∧ '|' ∉ rule)
    (pieces : s.sections.flatMap piecesOf ++ s.currentRules.map (fun rule => (s.currentGroup, rule)) =
      rows.map InlineRuleRow.piece) :
    Wrote { s with currentRules := s.currentRules ++ [row.rule] } (rows ++ [row]) := by
  obtain ⟨⟨semicolon, colon, -⟩, ⟨-, bar, semicolon', -⟩, bar', semicolon''⟩ := separable
  have rule : ';' ∉ row.rule ∧ '|' ∉ row.rule := by simp [InlineRuleRow.rule, *]
  refine ⟨clean, .inr ⟨same ▸ ⟨named, semicolon, colon⟩, by simp⟩, ?_, ?_⟩
  · rw [List.forall_mem_append, List.forall_mem_singleton]
    exact ⟨rules, rule⟩
  · rw [List.map_append, ← List.append_assoc, pieces, List.map_append]
    simp [InlineRuleRow.piece, same]

theorem add_wrote {s : Folding} {rows : List InlineRuleRow} {row : InlineRuleRow} (filled : Filled row)
    (separable : Separable row.trimmed) (wrote : Wrote s rows) : Wrote (s.add row) (rows ++ [row.trimmed]) := by
  obtain ⟨typed, valued, named⟩ := filled
  have kept : ¬(row.trimmed.type = [] ∨ row.trimmed.value = [] ∨ row.trimmed.group = []) :=
    not_or.mpr ⟨typed, not_or.mpr ⟨valued, named⟩⟩
  rw [Folding.add]
  dsimp only
  rw [if_neg kept]
  obtain ⟨flushed, -, none⟩ := flush_wrote wrote
  split
  next other =>
    exact push_wrote (s := { s.flush with currentGroup := row.trimmed.group }) rfl named separable flushed.clean
      (by simp [none]) (by simpa [none] using flushed.pieces)
  next same => exact push_wrote (not_not.mp same).symm named separable wrote.clean wrote.rules wrote.pieces

theorem rulePieces_serializeInlineRuleRows {rows : List InlineRuleRow} (filled : ∀ row ∈ rows, Filled row)
    (separable : ∀ row ∈ rows, Separable row.trimmed) :
    rulePieces (serializeInlineRuleRows rows) = rows.map fun row => row.trimmed.piece := by
  have run : ∀ (more done : List InlineRuleRow) (s : Folding), (∀ row ∈ more, Filled row) →
      (∀ row ∈ more, Separable row.trimmed) → Wrote s done →
      Wrote (more.foldl Folding.add s) (done ++ more.map InlineRuleRow.trimmed) := by
    intro more
    induction more with
    | nil => simp
    | cons row rest ih =>
      intro done s filled separable wrote
      rw [List.forall_mem_cons] at filled separable
      simpa using ih _ _ filled.2 separable.2 (add_wrote filled.1 separable.1 wrote)
  have start : Wrote {} [] := ⟨by simp, .inl ⟨rfl, rfl⟩, by simp, rfl⟩
  obtain ⟨wrote, -, none⟩ := flush_wrote (run rows [] {} filled separable start)
  have pieces := wrote.pieces
  rw [none, List.map_nil, List.append_nil, List.nil_append, List.map_map] at pieces
  rw [rulePieces, serializeInlineRuleRows]
  by_cases empty : (rows.foldl Folding.add {}).flush.sections = []
  · rw [empty] at pieces ⊢
    rw [← Function.comp_def, ← pieces]
    simp [piecesOf, cutAt]
  · rw [List.splitOn_intercalate ';' wrote.clean empty, pieces]
    rfl

theorem parse_serialize_iff (rows : List InlineRuleRow) (filled : ∀ row ∈ rows, Filled row) :
    parseInlineRuleRows (serializeInlineRuleRows rows) = rows.map InlineRuleRow.trimmed ↔
      ∀ row ∈ rows, Separable row.trimmed := by
  constructor
  · intro same row there
    exact separable_of_read (same ▸ List.mem_map_of_mem there)
  · intro separable
    rw [parseInlineRuleRows_eq, rulePieces_serializeInlineRuleRows filled separable, List.filterMap_map,
      ← List.filterMap_eq_map]
    exact List.filterMap_congr fun row there => rowOf_piece (filled row there) (separable row there)

theorem parse_serialize_plain :
    parseInlineRuleRows (serializeInlineRuleRows [⟨chars "DOMAIN-REGEX", chars " ^a,b:#c$", chars "G|H"⟩]) =
      [⟨chars "DOMAIN-REGEX", chars "^a,b:#c$", chars "G|H"⟩] :=
  (parse_serialize_iff [⟨chars "DOMAIN-REGEX", chars " ^a,b:#c$", chars "G|H"⟩] (by decide)).mpr (by decide)

theorem parse_serialize_cut :
    ∃ rows : List InlineRuleRow, (∀ row ∈ rows, Filled row) ∧
      parseInlineRuleRows (serializeInlineRuleRows rows) = [⟨chars "DOMAIN-REGEX", chars "^(a", ['G']⟩] ∧
      parseInlineRuleRows (serializeInlineRuleRows rows) ≠ rows.map InlineRuleRow.trimmed :=
  ⟨[⟨chars "DOMAIN-REGEX", chars "^(a|b)$", ['G']⟩], by decide, by decide, by decide⟩

end Rereading

section Backend

def flattened (sections : List (Text × List Text)) : List (Text × Text) :=
  sections.flatMap fun entry => entry.2.map fun rule => (entry.1, rule)

def keptOf (piece : Text × Text) : Option (Text × Text) :=
  let kept := (strip isSpace piece.1, strip isSpace piece.2)
  if Stands kept.1 ∧ Stands kept.2 then some kept else none

def keptRule (rule : Text) : Option Text := if Stands (strip isSpace rule) then some (strip isSpace rule) else none

theorem inlineRulesOf_eq (rulesBlob : Text) : inlineRulesOf rulesBlob = (rulesBlob.splitOn '|').filterMap keptRule := by
  rw [inlineRulesOf, ← List.filterMap_eq_filter, List.filterMap_map]
  apply List.filterMap_congr
  intro rule _
  simp only [Function.comp_apply, Option.guard, keptRule, Stands, Bool.and_eq_true, decide_eq_true_eq, ne_eq]
  congr

theorem keptRule_back {back : Text} (blank : ∀ c ∈ back, isSpace c) (rule : Text) : keptRule (rule ++ back) = keptRule rule := by
  rw [keptRule, keptRule, strip_back blank]

theorem inlineRulesOf_rdropWhile (rulesBlob : Text) : inlineRulesOf (rulesBlob.rdropWhile isSpace) = inlineRulesOf rulesBlob := by
  obtain ⟨back, whole, blank⟩ := rdropWhile_spec isSpace rulesBlob
  conv_rhs => rw [whole]
  rw [inlineRulesOf_eq, inlineRulesOf_eq]
  exact (filterMap_splitOn_back (bar_behind (by decide) blank) (keptRule_back blank) _).symm

-- The body of the loop of `parseInlineRules`.
def inlineSection (part : Text) : Option (Text × List Text) :=
  let piece := strip isSpace part
  if piece = [] ∨ piece.head? = some '#' then none
  else
    let (header, rulesBlob) := (cutAt [':'] piece).getD (piece, [])
    let group := strip isSpace header
    let rules := inlineRulesOf rulesBlob
    if group = [] ∨ rules = [] then none else some (group, rules)

theorem inlineSection_eq (part : Text) : flattened (inlineSection part).toList = (piecesOf part).filterMap keptOf := by
  have colon : isSpace ':' = false := by decide
  rw [inlineSection, piecesOf, cutAt_strip colon]
  cases cut : cutAt [':'] part with
  | none => simp [flattened, inlineRulesOf, strip]
  | some parts =>
    obtain ⟨header, rulesBlob⟩ := parts
    simp only [Option.map_some, Option.getD_some, strip_dropWhile, inlineRulesOf_rdropWhile, List.filterMap_map]
    by_cases named : strip isSpace header = []
    · simp [named, keptOf, Stands, Function.comp_def, flattened]
    have stands := stands_cut colon cut named
    by_cases kept : Stands (strip isSpace header)
    · have rule : keptOf ∘ (fun rule => (header, rule)) = fun rule => (keptRule rule).map fun rule => (strip isSpace header, rule) := by
        funext rule
        simp only [Function.comp_apply, keptOf, keptRule, kept, true_and]
        split <;> rfl
      rw [if_neg (stands_iff.mp (stands.mpr kept)), rule, ← List.map_filterMap, ← inlineRulesOf_eq]
      by_cases bare : inlineRulesOf rulesBlob = [] <;> simp [bare, named, flattened]
    · rw [if_pos (not_not.mp (stands_iff.not.mp (stands.not.mpr kept)))]
      simp [keptOf, kept, Function.comp_def, flattened]

theorem flattened_parseInlineRules (wire : Text) : flattened (parseInlineRules wire) = (rulePieces wire).filterMap keptOf := by
  have each : ∀ parts : List Text, flattened (parts.filterMap inlineSection) = (parts.flatMap piecesOf).filterMap keptOf := by
    intro parts
    induction parts with
    | nil => rfl
    | cons part rest ih =>
      rw [List.flatMap_cons, List.filterMap_append, ← inlineSection_eq, ← ih, List.filterMap_cons]
      cases inlineSection part <;> simp [flattened]
  exact each _

end Backend

section Agreement

def Legible (piece : Text × Text) : Prop :=
  trim (strip isSpace piece.1) = strip isSpace piece.1 ∧
  ∃ type value, strip isSpace piece.2 = type ++ ',' :: value ∧ ',' ∉ type ∧ (type ≠ [] ∧ trim type = type) ∧
    value ≠ [] ∧ trim value = value

theorem isBlank_of_isSpace (c : Char) (space : isSpace c) : isBlank c := by
  simp only [isSpace, List.mem_cons, List.not_mem_nil, or_false, decide_eq_true_eq] at space
  rcases space with rfl | rfl | rfl | rfl | rfl | rfl <;> decide

theorem trim_strip (text : Text) : trim (strip isSpace text) = trim text := strip_narrow isBlank_of_isSpace text

theorem stands_of_trim {text : Text} (stands : Stands (trim text)) : Stands (strip isSpace text) := by
  rw [← trim_strip] at stands
  refine ⟨fun none => stands.1 (by rw [none]; rfl), fun mark => stands.2 ?_⟩
  obtain ⟨rest, same⟩ := List.head?_eq_some_iff.mp mark
  obtain ⟨tail, kept⟩ := strip_cons (show isBlank '#' = false by decide) rest
  rw [same, trim, kept]
  rfl

theorem keptOf_of_rowOf {piece : Text × Text} {row : InlineRuleRow} (read : rowOf piece = some row) : (keptOf piece).isSome := by
  rw [rowOf, Option.ite_none_right_eq_some] at read
  obtain ⟨named, read⟩ := read
  have stands : Stands (trim piece.2) := by
    by_contra skipped
    rw [readRule] at read
    simp [if_pos (not_not.mp (stands_iff.not.mp skipped))] at read
  simp [keptOf, stands_of_trim named, stands_of_trim stands]

theorem reads_alike_iff (piece : Text × Text) :
    keptOf piece = (rowOf piece).map InlineRuleRow.piece ↔
      (Stands (strip isSpace piece.1) → Stands (strip isSpace piece.2) → Legible piece) := by
  constructor
  · intro same named stands
    rw [keptOf, if_pos ⟨named, stands⟩, eq_comm, Option.map_eq_some_iff] at same
    obtain ⟨row, read, same⟩ := same
    rw [rowOf, Option.ite_none_right_eq_some] at read
    obtain ⟨typed, valued, group, left, right, cut, type, value⟩ := readRule_some read.2
    rw [InlineRuleRow.piece, Prod.mk.injEq] at same
    refine ⟨?_, row.type, row.value, same.2.symm, ?_, ⟨typed.1, ?_⟩, valued, ?_⟩
    · rw [← same.1, group]
      exact strip_strip _ _
    · exact type ▸ not_mem_trim (cutAt_mark_iff.mp cut).2
    · rw [type]
      exact strip_strip _ _
    · rw [value]
      exact strip_strip _ _
  · intro legible
    by_cases both : Stands (strip isSpace piece.1) ∧ Stands (strip isSpace piece.2)
    · obtain ⟨group, type, value, rule, comma, ⟨typed, first⟩, valued, last⟩ := legible both.1 both.2
      rw [trim_strip] at group
      have whole : trim piece.2 = type ++ ',' :: value := by
        rw [← trim_strip, rule]
        exact strip_joined first last valued typed
      have stands : Stands (type ++ ',' :: value) := rule ▸ both.2
      have read : rowOf piece = some ⟨type, value, strip isSpace piece.1⟩ := by
        rw [rowOf, group, if_pos both.1, readRule, whole]
        dsimp only
        rw [if_neg (stands_iff.mp stands), cutAt_mark_iff.mpr ⟨rfl, comma⟩]
        simp only [first, last, if_neg (not_or.mpr ⟨typed, valued⟩)]
      rw [keptOf, if_pos both, read, rule]
      rfl
    · have skipped : keptOf piece = none := if_neg both
      cases read : rowOf piece with
      | none => simpa using skipped
      | some row =>
        have kept := keptOf_of_rowOf read
        rw [skipped] at kept
        cases kept

theorem readers_agree_iff (wire : Text) :
    flattened (parseInlineRules wire) = (parseInlineRuleRows wire).map InlineRuleRow.piece ↔
      ∀ piece ∈ rulePieces wire, Stands (strip isSpace piece.1) → Stands (strip isSpace piece.2) → Legible piece := by
  rw [flattened_parseInlineRules, parseInlineRuleRows_eq, List.map_filterMap, filterMap_eq_filterMap_iff]
  · exact forall_congr' fun piece => imp_congr_right fun _ => reads_alike_iff piece
  · intro piece _ read
    rw [Option.isSome_map, Option.isSome_iff_exists] at read
    exact keptOf_of_rowOf read.choose_spec

theorem readers_disagree :
    ∃ rows : List InlineRuleRow,
      (parseInlineRuleRows (serializeInlineRuleRows rows)).map InlineRuleRow.piece = [(['G'], chars "DOMAIN-REGEX,^(a")] ∧
      flattened (parseInlineRules (serializeInlineRuleRows rows)) = [(['G'], chars "DOMAIN-REGEX,^(a"), (['G'], chars "b)$")] :=
  ⟨[⟨chars "DOMAIN-REGEX", chars "^(a|b)$", ['G']⟩], by decide, by decide⟩

end Agreement

end Pieces

end SubConverter.Web
