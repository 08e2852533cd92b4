import SubConverter.Utils.RedactRuns

set_option autoImplicit false

namespace SubConverter.Utils.RedactLoops

open Redact (isLineBreak sensitiveParameter replacement structuredKey structuredFieldAt)
open Loops
open Places

section Quotes

def backslashes (text : Text) (place : Nat) : Nat := ((text.take place).rtakeWhile fun c => c = '\\').length

theorem backslashes_succ {text : Text} {place : Nat} {c : Char} (there : text[place]? = some c) :
    backslashes text (place + 1) = if c = '\\' then backslashes text place + 1 else 0 := by
  rw [backslashes, take_succ there]
  split
  next same => rw [List.rtakeWhile_concat_pos _ _ _ (by simpa using same), List.length_append, List.length_singleton, backslashes]
  next other => rw [List.rtakeWhile_concat_neg _ _ _ (by simpa using other), List.length_nil]

theorem find_place {text : Text} {quote : Char} {start : Nat} {found : Option Nat}
    (first : FirstFrom (fun place => text[place]? = some quote ∧ backslashes text place % 2 = 0) start found) :
    Redact.quotedValueEnd.find quote (backslashes text start) (text.drop start) = found.map text.drop := by
  induction size : text.length - start generalizing start with
  | zero =>
    cases found with
    | none =>
      rw [List.drop_eq_nil_of_le (by omega)]
      rfl
    | some place =>
      have inside := lt_of_get first.2.1.1
      have behind := first.1
      omega
  | succ size ih =>
    obtain ⟨c, there⟩ : ∃ c, text[start]? = some c := ⟨_, List.getElem?_eq_getElem (by omega)⟩
    rw [drop_eq_cons there, Redact.quotedValueEnd.find]
    by_cases here : c = quote ∧ backslashes text start % 2 = 0
    · rw [if_pos here]
      have same : found = some start := by
        obtain ⟨rfl, even⟩ := here
        exact first.unique ⟨le_rfl, ⟨there, even⟩, fun place behind before => absurd before (Nat.not_lt_of_le behind)⟩
      rw [same, Option.map_some, drop_eq_cons there]
    · rw [if_neg here, ← backslashes_succ there]
      refine ih ?_ (by omega)
      have nothing : ¬(text[start]? = some quote ∧ backslashes text start % 2 = 0) := by
        rw [there, Option.some.injEq]
        exact here
      cases found with
      | none => exact fun place behind => first place (by omega)
      | some place =>
        obtain ⟨behind, holds, before⟩ := first
        have other : start ≠ place := by
          rintro rfl
          exact nothing holds
        exact ⟨by omega, holds, fun earlier after less => before earlier (by omega) less⟩

theorem quote_ends (text : Text) (quote : Char) (start : Nat) :
    ∃ found, Halts (loop (nextQuote text quote) start) found ∧
      FirstFrom (fun place => text[place]? = some quote ∧ backslashes text place % 2 = 0) start found := by
  refine search_ends (loop (nextQuote text quote)) (fun place there => lt_of_get there) (fun start => find_first text start quote)
    ?_ ?_ ?_ start
  · intro start nothing
    refine Halts.loop_done ?_
    rw [nextQuote, nothing]
    exact Halts.pure _
  · intro start place found even
    refine Halts.loop_done ?_
    have plain : escapedQuote text place = false := decide_eq_false (not_not.mpr even)
    rw [nextQuote, found]
    simp only [plain]
    exact Halts.pure _
  · intro start place result found odd later
    refine Halts.loop_again ?_ later
    have escaped : escapedQuote text place = true := decide_eq_true odd
    rw [nextQuote, found]
    simp only [escaped]
    exact Halts.pure _

theorem dropWhile_until {text : Text} {start : Nat} {found : Option Nat} (inside : start ≤ text.length)
    (first : FirstFrom (fun place => ∃ c, text[place]? = some c ∧ isLineBreak c = true) start found) :
    text.drop (found.getD text.length) = (text.drop start).dropWhile fun c => !isLineBreak c := by
  have until' {stop : Nat} (order : start ≤ stop) (before : ∀ place, start ≤ place → place < stop →
      ¬∃ c, text[place]? = some c ∧ isLineBreak c = true) :
      (text.drop start).dropWhile (fun c => !isLineBreak c) = (text.drop stop).dropWhile fun c => !isLineBreak c := by
    obtain ⟨part, whole, places⟩ := drop_between text order
    rw [whole, List.dropWhile_append_of_pos]
    intro c there
    obtain ⟨place, behind, less, here⟩ := places c there
    by_contra breaks
    exact before place behind less ⟨c, here, by simpa using breaks⟩
  cases found with
  | none =>
    rw [Option.getD_none, until' inside fun place behind _ => first place behind, List.drop_length]
    rfl
  | some place =>
    obtain ⟨order, there, before⟩ := first
    rw [Option.getD_some, until' order before]
    obtain ⟨c, there, breaks⟩ := there
    rw [drop_eq_cons there, List.dropWhile_cons_of_neg (by simp [breaks])]

theorem quotedValueEnd_ends {text : Text} {start : Nat} {quote : Char} (there : text[start]? = some quote) (mark : quote ≠ '\\') :
    ∃ last, Halts (quotedValueEnd text start quote) last ∧ start + 1 ≤ last ∧ last ≤ text.length ∧
      text.drop last = Redact.quotedValueEnd quote (text.drop (start + 1)) := by
  obtain ⟨found, ends, first⟩ := quote_ends text quote (start + 1)
  have inside := lt_of_get there
  have none' : backslashes text (start + 1) = 0 := by rw [backslashes_succ there, if_neg mark]
  have value := find_place first
  rw [none'] at value
  refine ⟨_, Halts.bind ends (Halts.pure _), ?_⟩
  rw [Redact.quotedValueEnd, value]
  cases found with
  | some place =>
    obtain ⟨behind, ⟨here, -⟩, -⟩ := first
    exact ⟨behind, (lt_of_get here).le, rfl⟩
  | none =>
    have line := findLineBreak_first text (start + 1)
    refine ⟨?_, ?_, dropWhile_until inside line⟩
    · cases found : findLineBreak text (start + 1) with
      | none => exact inside
      | some place => exact (found ▸ line).1
    · cases found : findLineBreak text (start + 1) with
      | none => exact le_rfl
      | some place => exact (lt_of_get (found ▸ line).2.1.choose_spec.1).le

end Quotes

section Blocks

open Redact (yamlBlockLines)

theorem lines_splitOn (text : Text) : ((text.splitOn '\n').flatMap fun line => '\n' :: line) = '\n' :: text := by
  induction size : text.length using Nat.strong_induction_on generalizing text with
  | _ _ ih =>
    subst size
    by_cases there : '\n' ∈ text
    · obtain ⟨part, rest, rfl, first⟩ := List.eq_append_cons_of_mem there
      have later := ih rest.length (by rw [List.length_append, List.length_cons]; omega) rest rfl
      rw [List.splitOn_append_cons_self_of_not_mem first, List.flatMap_cons, later]
      rfl
    · rw [List.splitOn_eq_singleton there]
      simp

theorem yamlBlockLines_cons (keyIndent : Nat) (line : Text) (rest : List Text) :
    yamlBlockLines keyIndent (line :: rest) =
      if (line = [] ∧ rest = []) ∨ leavesBlock keyIndent line = true then line :: rest else yamlBlockLines keyIndent rest := by
  rw [yamlBlockLines]
  simp only [leavesBlock, Bool.and_eq_true, decide_eq_true_eq]

theorem line_until {text : Text} {start stop : Nat} (order : start ≤ stop) (there : text[stop]? = some '\n')
    (before : ∀ place, start ≤ place → place < stop → ¬text[place]? = some '\n') :
    '\n' ∉ (text.drop start).take (stop - start) ∧
      text.drop start = (text.drop start).take (stop - start) ++ '\n' :: text.drop (stop + 1) := by
  obtain ⟨part, whole, places⟩ := drop_between text order
  have size : part.length = stop - start := by
    have lengths := congrArg List.length whole
    have inside := lt_of_get there
    rw [List.length_append, List.length_drop, List.length_drop] at lengths
    omega
  have same : (text.drop start).take (stop - start) = part := by rw [whole, ← size, List.take_left]
  rw [same, ← drop_eq_cons there]
  refine ⟨fun among => ?_, whole⟩
  obtain ⟨place, behind, less, here⟩ := places '\n' among
  exact before place behind less here

theorem no_line {text : Text} {start : Nat} (nothing : ∀ place, start ≤ place → ¬text[place]? = some '\n') : '\n' ∉ text.drop start := by
  intro there
  obtain ⟨index, here⟩ := List.mem_iff_getElem?.mp there
  rw [List.getElem?_drop] at here
  exact nothing (start + index) (Nat.le_add_right _ _) here

def behindBlock (text : Text) (keyIndent place : Nat) : Text :=
  (yamlBlockLines keyIndent ((text.drop (place + 1)).splitOn '\n')).flatMap fun line => '\n' :: line

structure InBlock (text : Text) (keyIndent start : Nat) (s : BlockLines) : Prop where
  line : s.lineStart = s.blockEnd + 1
  after : start ≤ s.blockEnd
  breaks : text[s.blockEnd]? = some '\n'
  behind : behindBlock text keyIndent s.blockEnd = behindBlock text keyIndent start

theorem block_ends (text : Text) (keyIndent : Nat) {blockEnd : Nat} (there : text[blockEnd]? = some '\n') :
    ∃ last, Halts (loop (nextBlockLine text keyIndent) ⟨blockEnd, blockEnd + 1⟩) last ∧ blockEnd ≤ last ∧ last ≤ text.length ∧
      text.drop last = behindBlock text keyIndent blockEnd := by
  have start : InBlock text keyIndent blockEnd ⟨blockEnd, blockEnd + 1⟩ := ⟨rfl, le_rfl, there, rfl⟩
  refine Halts.loop_keeps (fun s => text.length - s.blockEnd) (InBlock text keyIndent blockEnd) _ ?_ start
  intro s kept
  have inside := lt_of_get kept.breaks
  have whole := lines_splitOn (text.drop (s.blockEnd + 1))
  rw [← drop_eq_cons kept.breaks] at whole
  rw [← kept.behind, behindBlock]
  by_cases behind : text.length ≤ s.blockEnd + 1
  · refine .inl ⟨s.blockEnd, ?_, kept.after, inside.le, ?_⟩
    · rw [nextBlockLine, kept.line, if_pos behind]
      exact Halts.pure _
    · rw [List.drop_eq_nil_of_le behind] at whole ⊢
      rw [List.splitOn_nil, yamlBlockLines_cons, if_pos (.inl ⟨rfl, rfl⟩)]
      exact whole.symm
  · have first := find_first text (s.blockEnd + 1) '\n'
    cases found : find text (s.blockEnd + 1) '\n' with
    | none =>
      rw [found] at first
      have last : (text.drop (s.blockEnd + 1)).take (text.length - (s.blockEnd + 1)) = text.drop (s.blockEnd + 1) :=
        List.take_of_length_le (by rw [List.length_drop])
      have some' : text.drop (s.blockEnd + 1) ≠ [] := by
        rw [Ne, List.drop_eq_nil_iff]
        exact behind
      rw [List.splitOn_eq_singleton (no_line first)] at whole ⊢
      rw [yamlBlockLines_cons]
      by_cases leaves : leavesBlock keyIndent (text.drop (s.blockEnd + 1)) = true
      · refine .inl ⟨s.blockEnd, ?_, kept.after, inside.le, ?_⟩
        · rw [nextBlockLine, kept.line, if_neg behind]
          simp only [found, Option.getD_none, last, leaves, if_true]
          exact Halts.pure _
        · rw [if_pos (.inr leaves), whole]
      · refine .inl ⟨text.length, ?_, kept.after.trans inside.le, le_rfl, ?_⟩
        · rw [nextBlockLine, kept.line, if_neg behind]
          simp only [found, Option.getD_none, last, leaves]
          exact Halts.pure _
        · rw [if_neg (by simp [some', leaves]), List.drop_length]
          rfl
    | some lineEnd =>
      rw [found] at first
      obtain ⟨order, ends, before⟩ := first
      obtain ⟨plain, cut⟩ := line_until order ends before
      have parts : (text.drop (s.blockEnd + 1)).splitOn '\n' =
          (text.drop (s.blockEnd + 1)).take (lineEnd - (s.blockEnd + 1)) :: (text.drop (lineEnd + 1)).splitOn '\n' := by
        conv_lhs => rw [cut]
        exact List.splitOn_append_cons_self_of_not_mem plain _
      have more := List.splitOn_ne_nil '\n' (text.drop (lineEnd + 1))
      rw [parts] at whole ⊢
      rw [yamlBlockLines_cons]
      by_cases leaves : leavesBlock keyIndent ((text.drop (s.blockEnd + 1)).take (lineEnd - (s.blockEnd + 1))) = true
      · refine .inl ⟨s.blockEnd, ?_, kept.after, inside.le, ?_⟩
        · rw [nextBlockLine, kept.line, if_neg behind]
          simp only [found, Option.getD_some, leaves, if_true]
          exact Halts.pure _
        · rw [if_pos (.inr leaves), whole]
      · have after := kept.after
        have same : behindBlock text keyIndent lineEnd = behindBlock text keyIndent blockEnd := by
          rw [← kept.behind, behindBlock, behindBlock, parts, yamlBlockLines_cons, if_neg (by simp [more, leaves])]
        have next : InBlock text keyIndent blockEnd ⟨lineEnd, lineEnd + 1⟩ := ⟨rfl, show blockEnd ≤ lineEnd by omega, ends, same⟩
        refine .inr ⟨_, ?_, next, show text.length - lineEnd < text.length - s.blockEnd by omega⟩
        rw [nextBlockLine, kept.line, if_neg behind]
        simp only [found, Option.getD_some, leaves]
        exact Halts.pure _

theorem yamlBlockValueEnd_ends {text : Text} (keyStart : Nat) {start : Nat} (inside : start ≤ text.length) :
    ∃ last, Halts (yamlBlockValueEnd text keyStart start) last ∧ start ≤ last ∧ last ≤ text.length ∧
      text.drop last = Redact.yamlBlockValueEnd (text.take keyStart) (text.drop start) := by
  have first := find_first text start '\n'
  rw [yamlBlockValueEnd, Redact.yamlBlockValueEnd]
  cases found : find text start '\n' with
  | none =>
    rw [found] at first
    refine ⟨text.length, Halts.pure _, inside, le_rfl, ?_⟩
    rw [List.splitOn_eq_singleton (no_line first), List.drop_length]
    rfl
  | some lineEnd =>
    rw [found] at first
    obtain ⟨order, ends, before⟩ := first
    obtain ⟨plain, cut⟩ := line_until order ends before
    obtain ⟨last, later, after, fits, same⟩ := block_ends text ((text.take keyStart).rtakeWhile fun c => c ≠ '\n').length ends
    refine ⟨last, later, order.trans after, fits, ?_⟩
    rw [same, cut, List.splitOn_append_cons_self_of_not_mem plain]
    rfl

end Blocks

section Fields

theorem structuredKey_within (before : Text) : (structuredKey before).1 <+: before := by
  have keyed := List.rdropWhile_prefix (fun c => Handler.isSpace c && !isLineBreak c) before
  rw [structuredKey]
  split
  next => exact keyed
  next quote _ =>
    split
    next =>
      dsimp only
      split
      next => exact (List.dropLast_prefix _).trans ((List.rdropWhile_prefix _ _).trans ((List.dropLast_prefix _).trans keyed))
      next => exact keyed
    next =>
      dsimp only
      split
      next => exact (List.rdropWhile_prefix _ _).trans keyed
      next => exact (List.rdropWhile_prefix _ _).trans keyed

theorem compositeValueEnd_cut (closing : Char) (value : Text) :
    (∃ front, value = front ++ closing :: Redact.compositeValueEnd closing value) ∨
      Redact.compositeValueEnd closing value = value.dropWhile fun c => !isLineBreak c := by
  have search (opening : Char) (nesting : Redact.Nesting) (value rest : Text)
      (found : Redact.compositeValueEnd.find closing opening nesting value = some rest) : ∃ front, value = front ++ closing :: rest := by
    induction value generalizing nesting with
    | nil => cases found
    | cons c value ih =>
      rw [Redact.compositeValueEnd.find] at found
      split at found
      next here =>
        rw [Option.some.injEq] at found
        exact ⟨[], by rw [here.2.1, found]; rfl⟩
      next =>
        obtain ⟨front, same⟩ := ih _ found
        exact ⟨c :: front, by rw [same]; rfl⟩
  rw [Redact.compositeValueEnd]
  cases found : Redact.compositeValueEnd.find closing (if closing = '\x7d' then '\x7b' else '[') {} value with
  | none => exact .inr rfl
  | some rest => exact .inl (search _ _ _ _ found)

theorem compositeValueEnd_suffix (closing : Char) (value : Text) : Redact.compositeValueEnd closing value <:+ value := by
  rcases compositeValueEnd_cut closing value with ⟨front, whole⟩ | line
  · conv_rhs => rw [whole]
    exact (List.suffix_cons _ _).trans (List.suffix_append _ _)
  · rw [line]
    exact List.dropWhile_suffix _

theorem composite_ends {text : Text} {start : Nat} (inside : start ≤ text.length) (closing : Char) :
    ∃ last, text.length - (Redact.compositeValueEnd closing (text.drop start)).length = last ∧ start ≤ last ∧ last ≤ text.length ∧
      text.drop last = Redact.compositeValueEnd closing (text.drop start) := by
  have behind := compositeValueEnd_suffix closing (text.drop start)
  have short := behind.length_le
  rw [List.length_drop] at short
  exact ⟨_, rfl, by omega, Nat.sub_le _ _, (List.suffix_iff_eq_drop.mp (behind.trans (List.drop_suffix _ _))).symm⟩

theorem structuredFieldAt_hit {text : Text} {colon valueStart : Nat} {first : Char} (there : text[colon]? = some ':')
    (sensitive : sensitiveParameter (structuredKey (text.take colon)).2 = true)
    (start : colon + 1 + ((text.drop (colon + 1)).takeWhile fun c => c = ' ' ∨ c = '\t').length = valueStart)
    (value : text[valueStart]? = some first) (unbroken : isLineBreak first = false) :
    ∃ last, Halts (valueEndOf text (structuredKey (text.take colon)).1.length valueStart first) last ∧
      (if first = '\'' ∨ first = '"' then valueStart + 1 else valueStart) ≤ last ∧ last ≤ text.length ∧
      structuredFieldAt (text.take colon) (text.drop colon) =
        some (':' :: ((text.drop (colon + 1)).takeWhile fun c => c = ' ' ∨ c = '\t') ++
          (if first = '\'' ∨ first = '"' then [first] else []) ++ replacement, text.drop last) := by
  have inside := lt_of_get value
  have behind : (text.drop (colon + 1)).dropWhile (fun c => c = ' ' ∨ c = '\t') = first :: text.drop (valueStart + 1) := by
    rw [← drop_eq_cons value, ← start, Cursor.drop_takeWhile]
  have key : text.take (structuredKey (text.take colon)).1.length = (structuredKey (text.take colon)).1 :=
    (List.prefix_iff_eq_take.mp ((structuredKey_within (text.take colon)).trans (List.take_prefix _ _))).symm
  rw [drop_eq_cons there, structuredFieldAt]
  simp only [sensitive, Bool.not_true, Bool.false_eq_true, if_false, behind, unbroken]
  rw [valueEndOf]
  by_cases quoted : first = '\'' ∨ first = '"'
  · have mark : first ≠ '\\' := by
      rintro rfl
      simp at quoted
    obtain ⟨last, ends, order, fits, same⟩ := quotedValueEnd_ends value mark
    simp only [if_pos quoted]
    exact ⟨last, ends, order, fits, by rw [same]⟩
  simp only [if_neg quoted, List.append_nil]
  by_cases brace : first = '\x7b'
  · obtain ⟨last, ends, order, fits, same⟩ := composite_ends inside.le '\x7d'
    simp only [if_pos brace]
    rw [ends]
    exact ⟨last, Halts.pure _, order, fits, by rw [same, drop_eq_cons value]⟩
  by_cases bracket : first = '['
  · obtain ⟨last, ends, order, fits, same⟩ := composite_ends inside.le ']'
    simp only [if_neg brace, if_pos bracket]
    rw [ends]
    exact ⟨last, Halts.pure _, order, fits, by rw [same, drop_eq_cons value]⟩
  simp only [if_neg brace, if_neg bracket]
  by_cases block : first = '|' ∨ first = '>'
  · obtain ⟨last, ends, order, fits, same⟩ := yamlBlockValueEnd_ends (structuredKey (text.take colon)).1.length inside.le
    rw [key] at same
    simp only [if_pos block]
    exact ⟨last, ends, order, fits, by rw [same, drop_eq_cons value]⟩
  · simp only [if_neg block]
    have short : (((text.drop valueStart).takeWhile fun c => !(isLineBreak c || c ∈ [',', '\x7d', ']', '#'])).rdropWhile
        Handler.isSpace).length ≤ text.length - valueStart := by
      rw [← List.length_drop]
      exact ((List.rdropWhile_prefix _ _).trans (List.takeWhile_prefix _)).length_le
    refine ⟨_, Halts.pure _, Nat.le_add_right _ _, by omega, ?_⟩
    rw [← drop_eq_cons value, List.drop_drop]

theorem structuredFieldAt_miss {text : Text} {place : Nat} (other : text[place]? ≠ some ':') :
    structuredFieldAt (text.take place) (text.drop place) = none := by
  rw [Redact.structuredFieldAt.eq_2]
  intro rest whole
  rw [← List.head?_drop, whole] at other
  exact other rfl

theorem structuredFieldAt_bare {text : Text} {colon valueStart : Nat} (there : text[colon]? = some ':')
    (start : colon + 1 + ((text.drop (colon + 1)).takeWhile fun c => c = ' ' ∨ c = '\t').length = valueStart)
    (bare : sensitiveParameter (structuredKey (text.take colon)).2 = true → ∀ c, text[valueStart]? = some c → isLineBreak c = true) :
    structuredFieldAt (text.take colon) (text.drop colon) = none := by
  have behind := Cursor.drop_takeWhile (fun c => c = ' ' ∨ c = '\t') text (colon + 1)
  rw [start] at behind
  rw [drop_eq_cons there, structuredFieldAt]
  simp only [← behind]
  by_cases sensitive : sensitiveParameter (structuredKey (text.take colon)).2 = true
  · simp only [sensitive, Bool.not_true, Bool.false_eq_true, if_false]
    cases value : text[valueStart]? with
    | none =>
      rw [List.drop_eq_nil_of_le (List.getElem?_eq_none_iff.mp value)]
    | some c =>
      rw [drop_eq_cons value]
      simp only [bare sensitive c value, if_true]
  · simp [sensitive]

theorem structuredFieldAt_cases {text : Text} {colon valueStart : Nat} (there : text[colon]? = some ':')
    (start : colon + 1 + ((text.drop (colon + 1)).takeWhile fun c => c = ' ' ∨ c = '\t').length = valueStart) :
    structuredFieldAt (text.take colon) (text.drop colon) = none ∨
      sensitiveParameter (structuredKey (text.take colon)).2 = true ∧
        ∃ first, text[valueStart]? = some first ∧ isLineBreak first = false := by
  by_cases bare : sensitiveParameter (structuredKey (text.take colon)).2 = true → ∀ c, text[valueStart]? = some c → isLineBreak c = true
  · exact .inl (structuredFieldAt_bare there start bare)
  · push Not at bare
    obtain ⟨sensitive, first, value, unbroken⟩ := bare
    exact .inr ⟨sensitive, first, value, Bool.not_eq_true _ ▸ unbroken⟩

theorem advances_field : Rewriting.Advances structuredFieldAt where
  within := by
    intro before rest out left c hit
    by_cases colon : c = ':'
    · subst colon
      have there : (before ++ ':' :: rest)[before.length]? = some ':' := by simp
      have behind : (before ++ ':' :: rest).drop (before.length + 1) = rest := by
        rw [List.append_cons]
        exact List.drop_left' (by simp)
      rcases structuredFieldAt_cases there rfl with miss | ⟨sensitive, first, value, unbroken⟩
      · rw [List.take_left, List.drop_left, hit] at miss
        cases miss
      · obtain ⟨last, -, order, -, applies⟩ := structuredFieldAt_hit there sensitive rfl value unbroken
        rw [List.take_left, List.drop_left, hit, Option.some.injEq, Prod.mk.injEq] at applies
        have after : before.length + 1 ≤ last := by
          split at order <;> omega
        obtain ⟨more, rfl⟩ := Nat.exists_eq_add_of_le after
        rw [applies.2, ← List.drop_drop, behind]
        exact List.drop_suffix more rest
    · rw [Redact.structuredFieldAt.eq_2] at hit
      · cases hit
      · intro rest' same
        exact colon (List.cons.inj same).1

theorem blanks_miss {text : Text} {colon other : Nat} (after : colon < other)
    (less : other < colon + 1 + ((text.drop (colon + 1)).takeWhile fun c => c = ' ' ∨ c = '\t').length) : text[other]? ≠ some ':' := by
  obtain ⟨rest, whole⟩ := List.takeWhile_prefix (l := text.drop (colon + 1)) fun c => decide (c = ' ' ∨ c = '\t')
  intro there
  have index : (text.drop (colon + 1))[other - (colon + 1)]? = some ':' := by
    rw [List.getElem?_drop, Nat.add_sub_cancel' after, there]
  rw [← whole, List.getElem?_append_left (by omega)] at index
  have blank := List.mem_takeWhile_imp (List.mem_of_getElem? index)
  simp at blank

theorem take_value {text : Text} {colon valueStart : Nat} {first : Char} (there : text[colon]? = some ':')
    (start : colon + 1 + ((text.drop (colon + 1)).takeWhile fun c => c = ' ' ∨ c = '\t').length = valueStart)
    (value : text[valueStart]? = some first) :
    text.take (if first = '\'' ∨ first = '"' then valueStart + 1 else valueStart) =
        text.take colon ++ (':' :: ((text.drop (colon + 1)).takeWhile fun c => c = ' ' ∨ c = '\t') ++
          if first = '\'' ∨ first = '"' then [first] else []) ∧
      (if first = '\'' ∨ first = '"' then valueStart + 1 else valueStart) =
        colon + (':' :: ((text.drop (colon + 1)).takeWhile fun c => c = ' ' ∨ c = '\t') ++
          if first = '\'' ∨ first = '"' then [first] else []).length := by
  have blanks := List.prefix_iff_eq_take.mp (List.takeWhile_prefix (l := text.drop (colon + 1)) fun c => decide (c = ' ' ∨ c = '\t'))
  have front : text.take valueStart = text.take colon ++ ':' :: (text.drop (colon + 1)).takeWhile fun c => c = ' ' ∨ c = '\t' := by
    rw [← start, List.take_add, take_succ there, ← blanks, List.append_assoc, List.singleton_append]
  split
  next =>
    refine ⟨by rw [take_succ value, front, List.append_assoc], ?_⟩
    rw [List.length_append, List.length_cons, List.length_singleton]
    omega
  next =>
    refine ⟨by rw [front, List.append_nil], ?_⟩
    rw [List.append_nil, List.length_cons]
    omega

theorem nextField_passes (text : Text) {place : Nat} :
    Passes structuredFieldAt (fun s text place => s = ⟨text, place⟩) nextField ⟨text, place⟩ text place := by
  have first := find_first text place ':'
  cases found : find text place ':' with
  | none =>
    rw [found] at first
    refine .ends (fun other behind _ => structuredFieldAt_miss (first other behind)) ?_
    rw [nextField]
    simp only [found]
    exact Halts.pure _
  | some colon =>
    rw [found] at first
    obtain ⟨behind, there, before⟩ := first
    have inside := lt_of_get there
    have misses : Misses structuredFieldAt text place colon := fun other after less => structuredFieldAt_miss (before other after less)
    obtain ⟨valueStart, start⟩ : ∃ valueStart,
      colon + 1 + ((text.drop (colon + 1)).takeWhile fun c => c = ' ' ∨ c = '\t').length = valueStart := ⟨_, rfl⟩
    by_cases sensitive : sensitiveParameter (structuredKey (text.take colon)).2 = true
    · have fits : valueStart ≤ text.length := by
        have short := (List.takeWhile_prefix (l := text.drop (colon + 1)) fun c => decide (c = ' ' ∨ c = '\t')).length_le
        rw [List.length_drop] at short
        omega
      have skipped (bare : ∀ c, text[valueStart]? = some c → isLineBreak c = true)
          (on : Halts (nextField ⟨text, place⟩) (.again ⟨text, valueStart⟩)) :
          Passes structuredFieldAt (fun s text place => s = ⟨text, place⟩) nextField ⟨text, place⟩ text place := by
        refine .goes _ (by omega) fits (fun other after less => ?_) on rfl
        rcases Nat.lt_trichotomy other colon with early | rfl | late
        · exact misses other after early
        · exact structuredFieldAt_bare there start fun _ => bare
        · exact structuredFieldAt_miss (blanks_miss late (start ▸ less))
      cases value : text[valueStart]? with
      | none =>
        refine skipped (by simp [value]) ?_
        rw [nextField]
        simp only [found, sensitive, Bool.not_true, Bool.false_eq_true, if_false, start, value]
        exact Halts.pure _
      | some first =>
        by_cases broken : isLineBreak first = true
        · refine skipped (by simp [value, broken]) ?_
          rw [nextField]
          simp only [found, sensitive, Bool.not_true, Bool.false_eq_true, if_false, start, value, broken, if_true]
          exact Halts.pure _
        · obtain ⟨last, ends, order, short, applies⟩ :=
            structuredFieldAt_hit there sensitive start value (Bool.not_eq_true _ ▸ broken)
          refine .hits ⟨_, _⟩ behind inside misses applies ?_ rfl
          rw [nextField]
          simp only [found, sensitive, Bool.not_true, Bool.false_eq_true, if_false, start, value, broken]
          refine Halts.bind ends (replaced (order.trans short) ?_)
          obtain ⟨front, size⟩ := take_value there start value
          rw [Nat.add_sub_cancel' order, front, size, List.append_assoc (text.take colon), Nat.add_assoc, ← List.length_append]
          exact Halts.pure _
    · have miss := structuredFieldAt_bare there start fun key => absurd key sensitive
      refine .goes ⟨text, colon + 1⟩ (Nat.lt_succ_of_le behind) inside (misses_here misses miss) ?_ rfl
      rw [nextField]
      simp only [found, sensitive, Bool.not_false, if_true]
      exact Halts.pure _

theorem redactStructuredFields_ends (text : Text) : Halts (redactStructuredFields text) (Redact.redactStructuredFields text) := by
  refine loop_rewrites_text (fun s text place => s = ⟨text, place⟩) advances_field ?_ rfl
  rintro s text place - rfl
  exact nextField_passes text

end Fields

theorem redactSensitiveLogText_ends (text : Text) : Halts (redactSensitiveLogText text) (Redact.redactSensitiveLogText text) := by
  refine Halts.bind (redactHeaders_ends text) (Halts.bind (redactNamedParameters_ends _)
    (Halts.bind (redactStructuredFields_ends _) (Halts.bind (redactCurlAuthUser_ends _) ?_)))
  refine loop_rewrites_text (fun s text place => s = ⟨text, Handler.toLower text, place⟩) advances_url ?_ rfl
  rintro s text place - rfl
  exact nextUrl_passes text

end SubConverter.Utils.RedactLoops
