import SubConverter.Lib.Places
import SubConverter.Web.InlineRules

set_option autoImplicit false

namespace SubConverter.Web

open Places (lastIdxOf lastIdxOf_marked idxOf_marked)

section Editor

structure InlineRuleLineParse where
  rows : List InlineRuleRow := []
  invalidLines : Nat := 0
deriving DecidableEq, Repr

def lastIndexOf (text : Text) (mark : Char) : Option Nat := lastIdxOf mark text

def slice (text : Text) (start stop : Nat) : Text := (text.take stop).drop start

-- Nothing where the line counts as invalid.
def readLine (line : Text) : Option InlineRuleRow := do
  let first ← line.idxOf? ','
  let last ← lastIndexOf line ','
  if first = last then none
  else
    let type := trim (slice line 0 first)
    let value := trim (slice line (first + 1) last)
    let group := trim (slice line (last + 1) line.length)
    if type = [] ∨ value = [] ∨ group = [] then none else some ⟨type, value, group⟩

-- The body of the loop of `parseInlineRuleLines`.
def InlineRuleLineParse.addLine (s : InlineRuleLineParse) (rawLine : Text) : InlineRuleLineParse :=
  let line := trim rawLine
  if line = [] ∨ line.head? = some '#' then s
  else
    match readLine line with
    | none => { s with invalidLines := s.invalidLines + 1 }
    | some row => { s with rows := s.rows ++ [row] }

def parseInlineRuleLines (text : Text) : InlineRuleLineParse := (text.splitOn '\n').foldl InlineRuleLineParse.addLine {}

def InlineRuleRow.line (row : InlineRuleRow) : Text := row.type ++ ',' :: (row.value ++ ',' :: row.group)

def serializeInlineRuleLines (rows : List InlineRuleRow) : Text :=
  let kept := (rows.map InlineRuleRow.trimmed).filter fun row => row.type ≠ [] ∧ row.value ≠ [] ∧ row.group ≠ []
  ['\n'].intercalate (kept.map InlineRuleRow.line)

example : parseInlineRuleLines (chars "# off\n\nDOMAIN-REGEX , ^a,b$,G \nDOMAIN,x") =
    ⟨[⟨chars "DOMAIN-REGEX", chars "^a,b$", ['G']⟩], 1⟩ := by
  decide

end Editor

section Commas

variable {left middle right : Text}

theorem commas (line : Text) :
    ',' ∉ line ∨ (∃ left right, line = left ++ ',' :: right ∧ ',' ∉ left ∧ ',' ∉ right) ∨
      ∃ left middle right, line = left ++ ',' :: (middle ++ ',' :: right) ∧ ',' ∉ left ∧ ',' ∉ right := by
  by_cases there : ',' ∈ line
  · obtain ⟨left, rest, rfl, first⟩ := List.eq_append_cons_of_mem there
    by_cases again : ',' ∈ rest
    · obtain ⟨right, middle, same, last⟩ := List.eq_append_cons_of_mem (List.mem_reverse.mpr again)
      have whole : rest = middle.reverse ++ ',' :: right.reverse := by
        rw [← List.reverse_reverse rest, same]
        simp
      exact .inr (.inr ⟨left, middle.reverse, right.reverse, by rw [whole], first, mt List.mem_reverse.mp last⟩)
    · exact .inr (.inl ⟨left, rest, rfl, first, again⟩)
  · exact .inl there

theorem slice_between (front middle back : Text) :
    slice (front ++ middle ++ back) front.length (front.length + middle.length) = middle := by
  rw [slice, ← List.length_append, List.take_left, List.drop_left]

theorem readLine_fields (first : ',' ∉ left) (last : ',' ∉ right) :
    readLine (left ++ ',' :: (middle ++ ',' :: right)) =
      if trim left = [] ∨ trim middle = [] ∨ trim right = [] then none else some ⟨trim left, trim middle, trim right⟩ := by
  have behind : lastIndexOf (left ++ ',' :: middle ++ ',' :: right) ',' = some _ := lastIdxOf_marked (left ++ ',' :: middle) last
  rw [List.append_assoc, List.cons_append] at behind
  have type := slice_between [] left (',' :: (middle ++ ',' :: right))
  have value := slice_between (left ++ [',']) middle (',' :: right)
  have group := slice_between (left ++ ',' :: (middle ++ [','])) right []
  simp only [List.append_assoc, List.cons_append, List.nil_append, List.length_append, List.length_cons, List.length_nil,
    List.append_nil, Nat.zero_add] at behind type value group
  have apart : left.length ≠ left.length + (middle.length + 1) := by omega
  have close : left.length + 1 + middle.length = left.length + (middle.length + 1) := by omega
  have whole : left.length + (middle.length + 1 + 1) + right.length = left.length + (middle.length + (right.length + 1) + 1) := by omega
  rw [close] at value
  rw [whole] at group
  rw [readLine, idxOf_marked first, behind]
  simp only [Option.bind_eq_bind, Option.bind_some, if_neg apart, List.length_append, List.length_cons, type, value]
  rw [Nat.add_assoc, group]

theorem readLine_some {line : Text} {row : InlineRuleRow} (read : readLine line = some row) :
    ∃ left middle right, line = left ++ ',' :: (middle ++ ',' :: right) ∧ (',' ∉ left ∧ ',' ∉ right) ∧
      (trim left ≠ [] ∧ trim middle ≠ [] ∧ trim right ≠ []) ∧ row = ⟨trim left, trim middle, trim right⟩ := by
  obtain absent | ⟨left, right, rfl, first, last⟩ | ⟨left, middle, right, rfl, first, last⟩ := commas line
  · have none' : line.idxOf? ',' = none := List.idxOf?_eq_none_iff.mpr absent
    simp [readLine, none'] at read
  · simp [readLine, idxOf_marked first, lastIndexOf, lastIdxOf_marked left last] at read
  · rw [readLine_fields first last, Option.ite_none_left_eq_some, Option.some.injEq] at read
    obtain ⟨filled, same⟩ := read
    simp only [not_or] at filled
    exact ⟨left, middle, right, rfl, ⟨first, last⟩, filled, same.symm⟩

end Commas

section Rereading

structure Lineable (row : InlineRuleRow) : Prop where
  trimmed : row.trimmed = row
  filled : row.type ≠ [] ∧ row.value ≠ [] ∧ row.group ≠ []
  type : ',' ∉ row.type ∧ row.type.head? ≠ some '#'
  group : ',' ∉ row.group
  unbroken : '\n' ∉ row.line

variable {row : InlineRuleRow} {rows : List InlineRuleRow}

theorem trim_line (lineable : Lineable row) : trim row.line = row.line := by
  obtain ⟨typed, valued, named⟩ := lineable.filled
  have fields := lineable.trimmed
  rw [InlineRuleRow.trimmed, InlineRuleRow.mk.injEq] at fields
  obtain ⟨type, value, group⟩ := fields
  have behind : trim (row.value ++ ',' :: row.group) = row.value ++ ',' :: row.group := strip_joined value group named valued
  exact strip_joined type behind (by simp) typed

theorem addLine_line (lineable : Lineable row) (s : InlineRuleLineParse) :
    s.addLine row.line = { s with rows := s.rows ++ [row] } := by
  obtain ⟨typed, valued, named⟩ := lineable.filled
  have stands : Stands row.line := by
    refine ⟨by simp [InlineRuleRow.line], ?_⟩
    rw [InlineRuleRow.line, List.head?_append_of_ne_nil _ typed]
    exact lineable.type.2
  have fields := lineable.trimmed
  rw [InlineRuleRow.trimmed, InlineRuleRow.mk.injEq] at fields
  have read : readLine row.line = some row := by
    rw [InlineRuleRow.line, readLine_fields lineable.type.1 lineable.group]
    simp [fields, typed, valued, named]
  rw [InlineRuleLineParse.addLine, trim_line lineable]
  rw [if_neg (stands_iff.mp stands), read]

theorem addLines_lines (lineable : ∀ row ∈ rows, Lineable row) (s : InlineRuleLineParse) :
    (rows.map InlineRuleRow.line).foldl InlineRuleLineParse.addLine s = { s with rows := s.rows ++ rows } := by
  induction rows generalizing s with
  | nil => simp
  | cons row rest ih =>
    rw [List.forall_mem_cons] at lineable
    rw [List.map_cons, List.foldl_cons, addLine_line lineable.1, ih lineable.2]
    simp

theorem parse_serialize_lines (lineable : ∀ row ∈ rows, Lineable row) :
    parseInlineRuleLines (serializeInlineRuleLines rows) = ⟨rows, 0⟩ := by
  have trimmed : rows.map InlineRuleRow.trimmed = rows := by
    conv_rhs => rw [← List.map_id rows]
    exact List.map_congr_left fun row there => (lineable row there).trimmed
  have kept : (rows.filter fun row => row.type ≠ [] ∧ row.value ≠ [] ∧ row.group ≠ []) = rows :=
    List.filter_eq_self.mpr fun row there => by simpa using (lineable row there).filled
  rw [parseInlineRuleLines, serializeInlineRuleLines, trimmed]
  rw [kept]
  by_cases none' : rows = []
  · subst none'
    decide
  · have unbroken : ∀ line ∈ rows.map InlineRuleRow.line, '\n' ∉ line := by
      simpa using fun row there => (lineable row there).unbroken
    rw [List.splitOn_intercalate '\n' unbroken (by simpa using none'), addLines_lines lineable]
    simp

theorem lineable_of_readLine {rawLine : Text} (unbroken : '\n' ∉ rawLine) (stands : Stands (trim rawLine))
    (read : readLine (trim rawLine) = some row) : Lineable row := by
  obtain ⟨left, middle, right, whole, ⟨first, last⟩, filled, rfl⟩ := readLine_some read
  have inside := not_mem_trim unbroken
  simp only [whole, List.mem_append, List.mem_cons, not_or] at inside
  obtain ⟨left', -, middle', -, right'⟩ := inside
  have opened : Stands (trim left) := by
    have again : Stands (strip isBlank (trim rawLine)) := by
      rw [trim, strip_strip]
      exact stands
    exact (stands_cut (by decide) (cutAt_mark_iff.mpr ⟨whole, first⟩) filled.1).mp again
  refine ⟨?_, filled, ⟨not_mem_trim first, opened.2⟩, not_mem_trim last, ?_⟩
  · simp [InlineRuleRow.trimmed, trim, strip_strip]
  · simp [InlineRuleRow.line, not_mem_trim left', not_mem_trim middle', not_mem_trim right']

theorem addLine_lineable {rawLine : Text} (unbroken : '\n' ∉ rawLine) {s : InlineRuleLineParse}
    (lineable : ∀ row ∈ s.rows, Lineable row) : ∀ row ∈ (s.addLine rawLine).rows, Lineable row := by
  rw [InlineRuleLineParse.addLine]
  split
  next => exact lineable
  next stands =>
    cases read : readLine (trim rawLine) with
    | none => exact lineable
    | some row =>
      rw [List.forall_mem_append, List.forall_mem_singleton]
      exact ⟨lineable, lineable_of_readLine unbroken (stands_iff.mpr stands) read⟩

theorem lineable_of_parse (text : Text) : ∀ row ∈ (parseInlineRuleLines text).rows, Lineable row := by
  have run : ∀ (lines : List Text) (s : InlineRuleLineParse), (∀ line ∈ lines, '\n' ∉ line) → (∀ row ∈ s.rows, Lineable row) →
      ∀ row ∈ (lines.foldl InlineRuleLineParse.addLine s).rows, Lineable row := by
    intro lines
    induction lines with
    | nil => simp
    | cons line rest ih =>
      intro s unbroken lineable
      rw [List.forall_mem_cons] at unbroken
      exact ih _ unbroken.2 (addLine_lineable unbroken.1 lineable)
  exact run _ {} (fun line there => not_mem_of_mem_splitOn there) (by simp)

theorem parse_serialize_lines_iff : parseInlineRuleLines (serializeInlineRuleLines rows) = ⟨rows, 0⟩ ↔ ∀ row ∈ rows, Lineable row := by
  constructor
  · intro same row there
    have read := lineable_of_parse (serializeInlineRuleLines rows) row
    rw [same] at read
    exact read there
  · exact parse_serialize_lines

end Rereading

section Wire

def IsRule (piece : Text × Text) (left right : Text) : Prop :=
  Stands (trim piece.1) ∧ cutAt [','] (trim piece.2) = some (left, right) ∧ Stands (trim left) ∧ trim right ≠ []

theorem rowOf_some_iff {piece : Text × Text} {row : InlineRuleRow} :
    rowOf piece = some row ↔ ∃ left right, IsRule piece left right ∧ row = ⟨trim left, trim right, trim piece.1⟩ := by
  constructor
  · intro read
    rw [rowOf, Option.ite_none_right_eq_some] at read
    obtain ⟨named, read⟩ := read
    obtain ⟨typed, valued, group, left, right, cut, type, value⟩ := readRule_some read
    exact ⟨left, right, ⟨named, cut, type ▸ typed, value ▸ valued⟩, by rw [← type, ← value, ← group]⟩
  · intro rule
    obtain ⟨left, right, ⟨named, cut, typed, valued⟩, rfl⟩ := rule
    have stands : Stands (trim piece.2) := by
      have comma : isBlank ',' = false := by decide
      have again := (stands_cut comma cut typed.1).mpr typed
      rwa [trim, strip_strip] at again
    rw [rowOf, if_pos named, readRule]
    dsimp only
    rw [if_neg (stands_iff.mp stands), cut]
    simp [typed.1, valued]

def FitsLine (piece : Text × Text) : Prop :=
  ∀ left right, IsRule piece left right →
    ',' ∉ trim piece.1 ∧ '\n' ∉ trim piece.1 ∧ '\n' ∉ trim left ∧ '\n' ∉ trim right

theorem lineable_iff {piece : Text × Text} {left right : Text} (rule : IsRule piece left right) :
    Lineable ⟨trim left, trim right, trim piece.1⟩ ↔
      ',' ∉ trim piece.1 ∧ '\n' ∉ trim piece.1 ∧ '\n' ∉ trim left ∧ '\n' ∉ trim right := by
  obtain ⟨named, cut, typed, valued⟩ := rule
  constructor
  · intro lineable
    have unbroken := lineable.unbroken
    simp only [InlineRuleRow.line, List.mem_append, List.mem_cons, not_or] at unbroken
    exact ⟨lineable.group, unbroken.2.2.2.2, unbroken.1, unbroken.2.2.1⟩
  · intro plain
    obtain ⟨comma, group, type, value⟩ := plain
    have first : ',' ∉ trim left := not_mem_trim (cutAt_mark_iff.mp cut).2
    refine ⟨?_, ⟨typed.1, valued, named.1⟩, ⟨first, typed.2⟩, comma, ?_⟩
    · simp [InlineRuleRow.trimmed, trim, strip_strip]
    · simp [InlineRuleRow.line, group, type, value]

theorem lineable_rows_iff (wire : Text) :
    (∀ row ∈ parseInlineRuleRows wire, Lineable row) ↔ ∀ piece ∈ rulePieces wire, FitsLine piece := by
  simp only [parseInlineRuleRows_eq, List.mem_filterMap, rowOf_some_iff]
  constructor
  · intro lineable piece there left right rule
    exact (lineable_iff rule).mp (lineable _ ⟨piece, there, left, right, rule, rfl⟩)
  · intro plain row read
    obtain ⟨piece, there, left, right, rule, rfl⟩ := read
    exact (lineable_iff rule).mpr (plain piece there left right rule)

theorem line_editor_keeps_iff (wire text : Text) :
    (parseInlineRuleLines (serializeInlineRuleLines (parseInlineRuleRows wire)) = ⟨parseInlineRuleRows wire, 0⟩ ↔
      ∀ piece ∈ rulePieces wire, FitsLine piece) ∧
    parseInlineRuleLines (serializeInlineRuleLines (parseInlineRuleLines text).rows) = ⟨(parseInlineRuleLines text).rows, 0⟩ := by
  constructor
  · rw [parse_serialize_lines_iff, lineable_rows_iff]
  · exact parse_serialize_lines (lineable_of_parse text)

theorem line_editor_changes :
    parseInlineRuleRows (chars "A,B:DOMAIN,x") = [⟨chars "DOMAIN", ['x'], chars "A,B"⟩] ∧
    parseInlineRuleLines (serializeInlineRuleLines (parseInlineRuleRows (chars "A,B:DOMAIN,x"))) =
      ⟨[⟨chars "DOMAIN", chars "x,A", ['B']⟩], 0⟩ ∧
    parseInlineRuleLines (serializeInlineRuleLines (parseInlineRuleRows (chars "A\nB:DOMAIN,x"))) =
      ⟨[⟨chars "DOMAIN", ['x'], ['A']⟩], 1⟩ ∧
    ¬∀ wire, parseInlineRuleLines (serializeInlineRuleLines (parseInlineRuleRows wire)) = ⟨parseInlineRuleRows wire, 0⟩ :=
  ⟨by decide, by decide, by decide, fun same => absurd (same (chars "A,B:DOMAIN,x")) (by decide)⟩

end Wire

end SubConverter.Web
