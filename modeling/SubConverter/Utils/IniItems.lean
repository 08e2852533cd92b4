import SubConverter.Utils.IniBlocks

set_option autoImplicit false

namespace SubConverter.Utils.IniReader

open Handler (isSpace trim trimOf getLineBreak)

section Escapes

variable {c : Char} {text : Text}

def StartsEscape (c : Char) (text : Text) : Prop := c = '\\' ∧ ∃ next ∈ ['n', 'r', 't'], text.head? = some next

def Escaped (text : Text) : Prop := ∃ c ∈ ['n', 'r', 't'], ['\\', c] <:+: text

theorem not_escaped_nil : ¬Escaped [] := by simp [Escaped]

theorem escaped_cons_iff : Escaped (c :: text) ↔ StartsEscape c text ∨ Escaped text := by
  have front : ∀ next, ['\\', next] <+: c :: text ↔ c = '\\' ∧ text.head? = some next := by
    intro next
    cases text with
    | nil => simp
    | cons d rest => simp [List.cons_prefix_cons, eq_comm]
  simp only [Escaped, StartsEscape, List.infix_cons_iff, front, and_or_left, exists_or, and_left_comm, exists_and_left]

theorem processEscapeChar_cons (plain : ¬StartsEscape c text) : processEscapeChar (c :: text) = c :: processEscapeChar text := by
  rw [processEscapeChar.eq_5]
  · rintro rest rfl rfl
    exact plain ⟨rfl, 'n', by simp⟩
  · rintro rest rfl rfl
    exact plain ⟨rfl, 'r', by simp⟩
  · rintro rest rfl rfl
    exact plain ⟨rfl, 't', by simp⟩

theorem not_startsEscape (n : ∀ rest, c = '\\' → text = 'n' :: rest → False) (r : ∀ rest, c = '\\' → text = 'r' :: rest → False)
    (t : ∀ rest, c = '\\' → text = 't' :: rest → False) : ¬StartsEscape c text := by
  rintro ⟨rfl, next, letter, head⟩
  obtain ⟨others, rfl⟩ := List.head?_eq_some_iff.mp head
  simp only [List.mem_cons, List.not_mem_nil, or_false] at letter
  rcases letter with rfl | rfl | rfl
  · exact n others rfl rfl
  · exact r others rfl rfl
  · exact t others rfl rfl

theorem startsEscape_append (value : Text) : StartsEscape c (text ++ '=' :: value) → StartsEscape c text := by
  rintro ⟨rfl, next, letter, head⟩
  cases text with
  | nil =>
    obtain rfl := Option.some_inj.mp head
    simp at letter
  | cons d others => exact ⟨rfl, next, letter, head⟩

theorem length_processEscapeChar_le (text : Text) : (processEscapeChar text).length ≤ text.length := by
  fun_induction processEscapeChar text with
  | case1 => exact le_rfl
  | case2 rest ih | case3 rest ih | case4 rest ih | case5 c rest _ _ _ ih =>
    simp only [List.length_cons]
    omega

theorem mem_processEscapeChar (there : '=' ∈ processEscapeChar text) : '=' ∈ text := by
  fun_induction processEscapeChar text with
  | case1 => exact there
  | case2 rest ih | case3 rest ih | case4 rest ih => simpa using ih (by simpa using there)
  | case5 c rest _ _ _ ih => exact List.mem_cons.mpr ((List.mem_cons.mp there).imp_right ih)

theorem processEscapeChar_of_plain (plain : ¬Escaped text) : processEscapeChar text = text := by
  induction text with
  | nil => rfl
  | cons c rest ih =>
    rw [escaped_cons_iff, not_or] at plain
    rw [processEscapeChar_cons plain.1, ih plain.2]

theorem length_processEscapeChar_lt (escaped : Escaped text) : (processEscapeChar text).length < text.length := by
  fun_induction processEscapeChar text with
  | case1 => exact absurd escaped not_escaped_nil
  | case2 rest | case3 rest | case4 rest =>
    have shorter := length_processEscapeChar_le rest
    simp only [List.length_cons]
    omega
  | case5 c rest n r t ih =>
    rw [escaped_cons_iff] at escaped
    have shorter := ih (escaped.resolve_left (not_startsEscape n r t))
    simp only [List.length_cons]
    omega

theorem processEscapeChar_append (name value : Text) :
    processEscapeChar (name ++ '=' :: value) = processEscapeChar name ++ '=' :: processEscapeChar value := by
  fun_induction processEscapeChar name with
  | case1 => rfl
  | case2 rest ih | case3 rest ih | case4 rest ih => simp only [List.cons_append, processEscapeChar, ih]
  | case5 c rest n r t ih =>
    have plain : ¬StartsEscape c (rest ++ '=' :: value) := fun starts => not_startsEscape n r t (startsEscape_append value starts)
    rw [List.cons_append, processEscapeChar_cons plain, ih, List.cons_append]

end Escapes

section Rows

structure Row where
  name : Text
  value : Text
  bare : '=' ∉ name

def Row.line (row : Row) : Text := row.name ++ '=' :: row.value

def trimmed (text : Text) : Text := strip (· = ' ') text

def Row.item (row : Row) : Text × Text :=
  (trimmed (processEscapeChar row.name), trimmed (processEscapeChar (row.value.rdropWhile isSpace)))

def Row.Plain (row : Row) : Prop := titleOf row.line = none ∧ isComment (row.line.rdropWhile isSpace) = false

def Blank (text : Text) : Prop := text ≠ [] ∧ ∀ c ∈ text, c = ' '

-- What the line is stored as: the place of the sign is that in the line before its escapes were replaced.
def Row.stored (row : Row) : Text × Text :=
  let escaped := processEscapeChar row.name ++ '=' :: processEscapeChar (row.value.rdropWhile isSpace)
  (trim (escaped.take row.name.length), (escaped.drop (row.name.length + 1)).dropWhile fun c => c = ' ')

-- An escape in the name moves the sign; nothing is trimmed off a name of spaces only.
def Row.Kept (row : Row) : Prop := ¬Escaped row.name ∧ ¬Blank row.name

structure Reader.Open (r : Reader) : Prop where
  parsed : r.inDirectSaveSection = false
  included : r.inExcludedSection = false
  named : r.curSection ≠ []

variable {o : Options} {r : Reader} {row : Row}

theorem rdropWhile_line (row : Row) : row.line.rdropWhile isSpace = row.name ++ '=' :: row.value.rdropWhile isSpace :=
  rdropWhile_marked (by decide) row.name row.value

theorem idxOf_line (row : Row) : (row.name ++ '=' :: row.value.rdropWhile isSpace).idxOf? '=' = some row.name.length := by
  rw [List.idxOf?_eq_some_iff]
  refine ⟨by simp, by simp, ?_⟩
  intro j before
  rw [List.getElem_append_left before]
  exact fun same => row.bare (same ▸ List.getElem_mem before)

theorem readLine_row (plain : row.Plain) (opened : r.Open) :
    readLine o r row.line = .ok ({ r with itemGroup := r.itemGroup ++ [row.stored] }, true) := by
  obtain ⟨title, comment⟩ := plain
  obtain ⟨parsed, included, named⟩ := opened
  have untitled : isTitle (processEscapeChar (row.line.rdropWhile isSpace)) (row.line.rdropWhile isSpace).length = false := by
    rw [titleOf] at title
    by_contra bracketed
    simp [Bool.not_eq_false _ ▸ bracketed] at title
  rw [readLine]
  simp only [comment, untitled, Bool.false_eq_true, false_and, if_false, parsed, included, named]
  rw [rdropWhile_line, idxOf_line]
  simp only [reduceCtorEq, and_false, or_self, false_and, if_false, processEscapeChar_append]
  rfl

theorem trim_eq_iff (text : Text) : trim text = trimmed text ↔ ¬Blank text := by
  unfold trim trimOf trimmed Blank
  by_cases blank : ∀ c ∈ text, c = ' '
  · have all : (text.all fun c => c = ' ') = true := by simpa using blank
    have nothing : strip (fun c => decide (c = ' ')) text = [] := strip_eq_nil_iff.mpr (by simpa using blank)
    simp only [all, if_true, nothing]
    tauto
  · have some : ¬(text.all fun c => c = ' ') = true := by simpa using blank
    rw [if_neg some]
    tauto

theorem last_cons {first c : Char} {text : Text} (there : c ∈ (first :: text).getLast?) : (c = first ∧ text = []) ∨ c ∈ text.getLast? := by
  cases text with
  | nil => exact .inl ⟨(Option.some_inj.mp there).symm, rfl⟩
  | cons second rest => exact .inr (by rwa [List.getLast?_cons_cons] at there)

theorem mem_last_cons {c : Char} {text : Text} (first : Char) (there : c ∈ text.getLast?) : c ∈ (first :: text).getLast? := by
  cases text with
  | nil => cases there
  | cons second rest => rwa [List.getLast?_cons_cons]

theorem last_processEscapeChar {text : Text} (kept : ∀ c ∈ text.getLast?, c ≠ ' ') : ∀ c ∈ (processEscapeChar text).getLast?, c ≠ ' ' := by
  fun_induction processEscapeChar text with
  | case1 => exact kept
  | case2 rest ih | case3 rest ih | case4 rest ih =>
    intro c there
    rcases last_cons there with ⟨rfl, -⟩ | behind
    · decide
    · exact ih (fun c last => kept c (mem_last_cons _ (mem_last_cons _ last))) c behind
  | case5 first rest _ _ _ ih =>
    intro c there
    rcases last_cons there with ⟨rfl, none⟩ | behind
    · have empty : rest = [] := by
        cases rest with
        | nil => rfl
        | cons second more =>
          rw [processEscapeChar.eq_def] at none
          split at none <;> simp_all
      exact kept c (by rw [empty]; rfl)
    · exact ih (fun c last => kept c (mem_last_cons _ last)) c behind

theorem trimmed_value (value : Text) : (processEscapeChar (value.rdropWhile isSpace)).dropWhile (fun c => c = ' ') =
    trimmed (processEscapeChar (value.rdropWhile isSpace)) := by
  rw [trimmed, ← strip_dropWhile]
  symm
  apply strip_eq_self
  · intro c there
    have found := List.head?_dropWhile_not (fun c => decide (c = ' ')) (processEscapeChar (value.rdropWhile isSpace))
    rw [Option.mem_def.mp there] at found
    simpa using found
  · intro c there
    have kept : ∀ c ∈ (value.rdropWhile isSpace).getLast?, c ≠ ' ' := by
      rintro c last rfl
      have present : value.rdropWhile isSpace ≠ [] := by
        rintro empty
        simp [empty] at last
      rw [List.getLast?_eq_some_getLast present, Option.mem_some_iff] at last
      exact List.rdropWhile_last_not _ _ present (last ▸ rfl)
    have found : c ∈ (processEscapeChar (value.rdropWhile isSpace)).getLast? := by
      obtain ⟨front, whole⟩ := List.dropWhile_suffix (l := processEscapeChar (value.rdropWhile isSpace)) fun c => decide (c = ' ')
      rw [← whole, List.getLast?_append, Option.mem_def.mp there]
      rfl
    simpa using last_processEscapeChar kept c found

theorem stored_eq_iff (row : Row) : row.stored = row.item ↔ row.Kept := by
  unfold Row.Kept
  by_cases escaped : Escaped row.name
  · have shorter := length_processEscapeChar_lt escaped
    have moved : '=' ∈ row.stored.1 := by
      have taken : '=' ∈ (processEscapeChar row.name ++ '=' :: processEscapeChar (row.value.rdropWhile isSpace)).take row.name.length := by
        rw [List.take_append, List.mem_append]
        right
        obtain ⟨more, some⟩ := Nat.exists_eq_add_of_lt shorter
        rw [some, show (processEscapeChar row.name).length + more + 1 - (processEscapeChar row.name).length = more + 1 by omega]
        simp
      rw [Row.stored, trim, trimOf]
      split
      next => exact taken
      next => exact (mem_strip_iff (by decide)).mpr taken
    have bare : '=' ∉ row.item.1 := by
      intro there
      exact row.bare (mem_processEscapeChar (mem_of_mem_strip there))
    refine iff_of_false (fun same => bare (same ▸ moved)) (fun plain => plain.1 escaped)
  · have name := processEscapeChar_of_plain escaped
    have value : (row.name ++ '=' :: processEscapeChar (row.value.rdropWhile isSpace)).drop (row.name.length + 1) =
        processEscapeChar (row.value.rdropWhile isSpace) := by
      rw [List.drop_append, Nat.add_sub_cancel_left, List.drop_eq_nil_of_le (by omega)]
      rfl
    simp only [Row.stored, Row.item, name, value, List.take_left, Prod.mk.injEq, trim_eq_iff, trimmed_value, escaped, not_false_eq_true,
      true_and, and_true]

end Rows

section Documents

variable {o : Options} {r : Reader} {row : Row} {rows : List Row} {content head title : Text} {lines : List Text} {final : Stored}

theorem readLines_rows (plain : ∀ row ∈ rows, row.Plain) (opened : r.Open) (unread : r.stored.readSections = []) :
    readLines o r (rows.map Row.line) =
      r.stored.closeLast o r.curSection (r.itemGroup ++ rows.map Row.stored) r.inIsolatedSection r.thisSection := by
  have unfinished : allIncluded o r.stored = false := by simp [allIncluded, unread]
  induction rows generalizing r with
  | nil => rw [List.map_nil, List.map_nil, List.append_nil, readLines]
  | cons row rest ih =>
    obtain ⟨here, others⟩ := List.forall_mem_cons.mp plain
    have next := @ih { r with itemGroup := r.itemGroup ++ [row.stored] } others ⟨opened.parsed, opened.included, opened.named⟩ unread
      unfinished
    rw [List.map_cons, readLines, readLine_row here opened]
    simpa [Bind.bind, Except.bind, unfinished] using next

theorem close_start (title : Text) : ∃ s, (startReader o).stored.close o (startReader o).curSection (startReader o).itemGroup
    (startReader o).inIsolatedSection title = .ok s ∧ s.readSections = [] ∧ Keyed.find title s.iniContent = none := by
  unfold startReader
  split
  next isolated =>
    by_cases same : o.isolatedItemsSection = title
    · refine ⟨{}, ?_, rfl, rfl⟩
      simp [Stored.close, Keyed.find, same]
    · by_cases kept : finished o o.isolatedItemsSection []
      · refine ⟨({} : Stored).insert o.isolatedItemsSection [], ?_, rfl, ?_⟩
        · simp [Stored.close, Keyed.find, same, kept]
        · simp [Stored.insert, Keyed.put, Keyed.find, same]
      · refine ⟨{}, ?_, rfl, rfl⟩
        simp [Stored.close, kept]
  next => exact ⟨{}, rfl, rfl, rfl⟩

theorem items_closeLast {s : Stored} {group : Items} (absent : Keyed.find title s.iniContent = none) :
    ∃ final, s.closeLast o title group false title = .ok final ∧ final.items title = if title = [] then [] else group := by
  rw [Stored.closeLast]
  by_cases kept : finished o title group
  · refine ⟨s.insert title group, by simp [kept, absent], ?_⟩
    have named : title ≠ [] := by
      rintro rfl
      simp [finished] at kept
    rw [if_neg named, Stored.items, Stored.insert, Keyed.find_put]
    rfl
  · refine ⟨s, by simp [kept], ?_⟩
    rw [Stored.items, absent]
    by_cases named : title = []
    · rw [if_pos named]
      rfl
    · have empty : group = [] := by
        simp only [finished, named, ne_eq, not_false_eq_true, decide_true, Bool.true_and, Bool.or_eq_true, decide_eq_true_eq, not_or,
          not_not] at kept
        exact kept.2
      rw [if_neg named, empty]
      rfl

theorem parse_rows (opened : linesOf (withoutBom content) = head :: rows.map Row.line) (titled : titleOf head = some title)
    (named : title ≠ []) (included : chkIgnore o title = false) (parsed : chkDirectSave o title = false)
    (plain : ∀ row ∈ rows, row.Plain) :
    ∃ final, parse o content = .ok final ∧ final.items title = rows.map Row.stored := by
  have present : content ≠ [] := by
    rintro rfl
    simp [withoutBom, linesOf, getLineBreak] at opened
  obtain ⟨s, closed, unread, absent⟩ := @close_start o title
  obtain ⟨final, last, items⟩ := @items_closeLast o title s (rows.map Row.stored) absent
  have unfinished : allIncluded o s = false := by simp [allIncluded, unread]
  refine ⟨final, ?_, by rw [items, if_neg named]⟩
  rw [parse, if_neg present, opened, readLines, readLine_title titled, closed]
  have rest := @readLines_rows o ⟨s, title, title, [], chkIgnore o title, chkDirectSave o title, false⟩ rows plain
    ⟨parsed, included, named⟩ unread
  rw [List.nil_append] at rest
  simpa [Except.map, Bind.bind, Except.bind, unfinished] using rest.trans last

theorem rows_split_iff (opened : linesOf (withoutBom content) = head :: rows.map Row.line) (titled : titleOf head = some title)
    (named : title ≠ []) (included : chkIgnore o title = false) (parsed : chkDirectSave o title = false)
    (plain : ∀ row ∈ rows, row.Plain) :
    (∃ final, parse o content = .ok final ∧ final.items title = rows.map Row.item) ↔ ∀ row ∈ rows, row.Kept := by
  obtain ⟨result, ok, items⟩ := parse_rows opened titled named included parsed plain
  have same : rows.map Row.stored = rows.map Row.item ↔ ∀ row ∈ rows, row.Kept := by
    rw [List.map_inj_left]
    exact forall₂_congr fun row _ => stored_eq_iff row
  rw [← same, ← items]
  constructor
  · rintro ⟨final, again, wanted⟩
    obtain rfl := Except.ok.inj (ok.symm.trans again)
    exact wanted
  · intro wanted
    exact ⟨result, ok, wanted⟩

theorem readLine_split_iff (plain : row.Plain) (opened : r.Open) :
    readLine o r row.line = .ok ({ r with itemGroup := r.itemGroup ++ [row.item] }, true) ↔ row.Kept := by
  rw [readLine_row plain opened, ← stored_eq_iff, Except.ok.injEq, Prod.mk.injEq, eq_self_iff_true, and_true, Reader.mk.injEq]
  simp

theorem items_split_iff (o : Options) :
    (∀ (r : Reader) (row : Row), r.Open → row.Plain →
      (readLine o r row.line = .ok ({ r with itemGroup := r.itemGroup ++ [row.item] }, true) ↔ row.Kept)) ∧
    ∀ (content head title : Text) (rows : List Row), linesOf (withoutBom content) = head :: rows.map Row.line →
      titleOf head = some title → title ≠ [] → chkIgnore o title = false → chkDirectSave o title = false →
      (∀ row ∈ rows, row.Plain) →
      ((∃ final, parse o content = .ok final ∧ final.items title = rows.map Row.item) ↔ ∀ row ∈ rows, row.Kept) :=
  ⟨fun _ _ opened plain => readLine_split_iff plain opened,
    fun _ _ _ _ opened titled named included parsed plain => rows_split_iff opened titled named included parsed plain⟩

theorem items_split_iff_value :
    ∃ final, parse {} (chars "[a]\nk = \\tv \nl=a=b") = .ok final ∧ final.items ['a'] = [(['k'], chars "\tv"), (['l'], chars "a=b")] := by
  have read := (items_split_iff {}).2 (chars "[a]\nk = \\tv \nl=a=b") (chars "[a]") ['a']
    [⟨chars "k ", chars " \\tv ", by decide⟩, ⟨['l'], chars "a=b", by decide⟩] (by decide) (by decide) (by simp)
    (by decide) (by decide)
  obtain ⟨final, ok, items⟩ := (read (by simp only [List.forall_mem_cons, Row.Plain]; decide)).mpr
    (by simp [Row.Kept, Escaped, Blank, chars, List.infix_cons_iff])
  exact ⟨final, ok, items.trans (by decide)⟩

theorem escaped_name_split :
    (parse {} (chars "[a]\nk\\tx=1")).toOption.map (fun final => final.items ['a']) = some [(chars "k\tx=", [])] ∧
      Row.item ⟨chars "k\\tx", ['1'], by decide⟩ = (chars "k\tx", ['1']) := by
  decide

end Documents

end SubConverter.Utils.IniReader
