import SubConverter.Lib.StdString
import SubConverter.Handler.ProviderNames

set_option autoImplicit false

namespace SubConverter.Utils.Trimming

open StdString

section Helpers

-- Nothing is left of the call when it throws.
def trimSelfOf (str : StdString Char) (target : Char) (before after : Bool) : Option (StdString Char) :=
  if !before && !after then some str
  else do
    let pos := if after then str.findLastNotOf target else sizeSub str.size 1
    let cut := if pos ≠ npos then str.erase (sizeAdd pos 1) npos else some str
    let str ← cut
    let pos := if before then str.findFirstNotOf target else pos
    str.erase 0 pos

def trimOf (str : StdString Char) (target : Char) (before after : Bool) : Option (StdString Char) :=
  if !before && !after then some str
  else
    let pos := if before then str.findFirstNotOf target else 0
    if pos = npos then some str
    else
      let pos2 := if after then str.findLastNotOf target else sizeSub str.size 1
      if pos2 ≠ npos then str.substr pos (sizeAdd (sizeSub pos2 pos) 1) else str.substr pos npos

def withoutRuns (target : Char) (before after : Bool) (text : Text) : Text :=
  let opened := if before then text.dropWhile (· = target) else text
  if after then opened.rdropWhile (· = target) else opened

end Helpers

section Frames

variable {text front middle back : Text} {target : Char} {str : StdString Char}

structure Framed (target : Char) (text front middle back : Text) : Prop where
  whole : text = front ++ middle ++ back
  ahead : ∀ c ∈ front, c = target
  behind : ∀ c ∈ back, c = target
  first : ∃ c rest, middle = c :: rest ∧ c ≠ target
  last : ∃ inner c, middle = inner ++ [c] ∧ c ≠ target

theorem framed_of_mixed (mixed : ∃ c ∈ text, c ≠ target) : ∃ front middle back, Framed target text front middle back := by
  obtain ⟨front, back, whole, ahead, behind⟩ := strip_spec (fun c => decide (c = target)) text
  obtain ⟨first, last⟩ := strip_ends (fun c => decide (c = target)) text
  have some' : strip (fun c => decide (c = target)) text ≠ [] := by
    intro none
    obtain ⟨c, there, other⟩ := mixed
    exact other (by simpa using strip_eq_nil_iff.mp none c there)
  refine ⟨front, _, back, whole, by simpa using ahead, by simpa using behind, ?_, ?_⟩
  · obtain ⟨c, rest, same⟩ := List.exists_cons_of_ne_nil some'
    exact ⟨c, rest, same, by simpa [same] using first⟩
  · obtain ⟨inner, c, same⟩ := (List.eq_nil_or_concat _).resolve_left some'
    rw [List.concat_eq_append] at same
    exact ⟨inner, c, same, by simpa [same] using last⟩

theorem Framed.dropWhile (framed : Framed target text front middle back) :
    text.dropWhile (· = target) = middle ++ back := by
  obtain ⟨c, rest, rfl, other⟩ := framed.first
  have ahead : ∀ c ∈ front, decide (c = target) = true := by simpa using framed.ahead
  rw [framed.whole, List.append_assoc, List.dropWhile_append_of_pos ahead]
  simp [other]

theorem Framed.rdropWhile (framed : Framed target text front middle back) :
    text.rdropWhile (· = target) = front ++ middle := by
  obtain ⟨inner, c, rfl, other⟩ := framed.last
  have marked : (front ++ inner ++ c :: back).rdropWhile (· = target) = front ++ inner ++ c :: back.rdropWhile (· = target) :=
    rdropWhile_marked (by simpa using other) _ _
  have none' : back.rdropWhile (fun c => decide (c = target)) = [] := List.rdropWhile_eq_nil_iff.mpr (by simpa using framed.behind)
  rw [none'] at marked
  rw [framed.whole]
  simpa using marked

theorem Framed.opened (framed : Framed target text front middle back) : Framed target (front ++ middle) front middle [] :=
  ⟨(List.append_nil _).symm, framed.ahead, by simp, framed.first, framed.last⟩

theorem Framed.closed (framed : Framed target text front middle back) : Framed target (middle ++ back) [] middle back :=
  ⟨rfl, by simp, framed.behind, framed.first, framed.last⟩

theorem Framed.findFirstNotOf (framed : Framed target str.text front middle back) : str.findFirstNotOf target = front.length := by
  obtain ⟨c, rest, rfl, other⟩ := framed.first
  have whole : str.text = front ++ c :: (rest ++ back) := by rw [framed.whole]; simp
  exact findFirstNotOf_eq whole framed.ahead other

theorem Framed.findLastNotOf (framed : Framed target str.text front middle back) :
    str.findLastNotOf target + 1 = (front ++ middle).length := by
  obtain ⟨inner, c, rfl, other⟩ := framed.last
  have whole : str.text = (front ++ inner) ++ c :: back := by rw [framed.whole]; simp
  rw [findLastNotOf_eq whole framed.behind other]
  simp [Nat.add_assoc]

theorem Framed.positive (framed : Framed target text front middle back) : 0 < middle.length := by
  obtain ⟨c, rest, rfl, -⟩ := framed.first
  exact Nat.succ_pos _

theorem Framed.size (framed : Framed target str.text front middle back) :
    str.size = front.length + middle.length + back.length := by
  rw [StdString.size, framed.whole, List.length_append, List.length_append]

end Frames

section Mixed

variable {front middle back : Text} {target : Char} {str : StdString Char} {before : Bool} (after : Bool)

theorem last_position (framed : Framed target str.text front middle back) :
    (if after then str.findLastNotOf target else sizeSub str.size 1) + 1 =
      if after then (front ++ middle).length else str.size := by
  cases after with
  | true =>
    rw [if_pos rfl, if_pos rfl]
    exact framed.findLastNotOf
  | false =>
    have positive := framed.positive
    have size := framed.size
    rw [if_neg Bool.false_ne_true, if_neg Bool.false_ne_true, sizeSub_eq str.size_lt (by omega)]
    omega

theorem last_position_le (framed : Framed target str.text front middle back) :
    (if after then (front ++ middle).length else str.size) ≤ str.size := by
  split
  · rw [framed.size, List.length_append]
    omega
  · exact le_rfl

theorem last_position_lt (framed : Framed target str.text front middle back) :
    (if after then str.findLastNotOf target else sizeSub str.size 1) < npos := by
  have next := last_position after framed
  have inside := last_position_le after framed
  have below := str.size_lt
  omega

theorem Framed.kept (framed : Framed target str.text front middle back) :
    str.text.take (if after then (front ++ middle).length else str.size) = if after then front ++ middle else str.text := by
  cases after with
  | true => rw [if_pos rfl, if_pos rfl, framed.whole, List.take_left]
  | false => rw [if_neg Bool.false_ne_true, if_neg Bool.false_ne_true, StdString.size, List.take_length]

theorem Framed.erased (framed : Framed target str.text front middle back) :
    ∃ cut, (if (if after then str.findLastNotOf target else sizeSub str.size 1) ≠ npos then
        str.erase (sizeAdd (if after then str.findLastNotOf target else sizeSub str.size 1) 1) npos else some str) = some cut ∧
      cut.text = if after then front ++ middle else str.text := by
  have below := last_position_lt after framed
  rw [if_pos (Nat.ne_of_lt below), sizeAdd_one below, last_position after framed]
  obtain ⟨cut, erased, same⟩ := erase_eq npos (last_position_le after framed)
  exact ⟨cut, erased, by rw [same, drop_npos, List.append_nil, framed.kept]⟩

theorem Framed.withoutRuns (framed : Framed target str.text front middle back) (before : Bool) :
    withoutRuns target before after str.text =
      (str.text.take (if after then (front ++ middle).length else str.size)).drop (if before then front.length else 0) := by
  rw [framed.kept, Trimming.withoutRuns]
  cases before <;> cases after
  · simp
  · simp [framed.rdropWhile]
  · simp only [Bool.false_eq_true, if_false, if_true, framed.dropWhile]
    rw [framed.whole, List.append_assoc, List.drop_left]
  · simp [framed.dropWhile, framed.closed.rdropWhile]

theorem trimSelfOf_mixed (framed : Framed target str.text front middle back) (asked : before = true ∨ after = true) :
    ∃ out, trimSelfOf str target before after = some out ∧
      out.text = if before then withoutRuns target before after str.text else (front ++ middle).getLast?.toList := by
  obtain ⟨cut, erased, same⟩ := framed.erased after
  rw [trimSelfOf, if_neg (by simpa [or_iff_not_imp_left] using asked)]
  dsimp only
  rw [erased]
  cases before with
  | true =>
    have rest : Framed target cut.text front middle (if after then [] else back) := by
      cases after with
      | true => exact same ▸ framed.opened
      | false => exact same ▸ framed
    obtain ⟨out, last, text⟩ := cut.erase_eq front.length (Nat.zero_le _)
    refine ⟨out, by rw [← last, ← rest.findFirstNotOf]; rfl, ?_⟩
    rw [text, same, List.take_zero, List.nil_append, Nat.zero_add, if_pos rfl, framed.withoutRuns, framed.kept, if_pos rfl]
  | false =>
    -- The position of the last character that stays is taken for the number of characters in front.
    obtain rfl : after = true := asked.resolve_left Bool.false_ne_true
    obtain ⟨inner, c, rfl, -⟩ := framed.last
    have place : str.findLastNotOf target = (front ++ inner).length := by
      have next := framed.findLastNotOf
      rw [← List.append_assoc, List.length_append, List.length_singleton] at next
      omega
    rw [if_pos rfl] at same
    obtain ⟨out, last, text⟩ := cut.erase_eq (str.findLastNotOf target) (Nat.zero_le _)
    refine ⟨out, last, ?_⟩
    rw [text, same, place, List.take_zero, List.nil_append, Nat.zero_add, ← List.append_assoc, List.drop_left, if_neg Bool.false_ne_true]
    simp

theorem trimOf_mixed (framed : Framed target str.text front middle back) (before : Bool) :
    ∃ out, trimOf str target before after = some out ∧ out.text = withoutRuns target before after str.text := by
  by_cases asked : before = true ∨ after = true
  · have next := last_position after framed
    have below := last_position_lt after framed
    have size := framed.size
    have positive := framed.positive
    have place : (if before then str.findFirstNotOf target else 0) = if before then front.length else 0 := by
      rw [framed.findFirstNotOf]
    have inside : (if before then front.length else 0) ≤ front.length := by
      split
      · exact le_rfl
      · exact Nat.zero_le _
    have behind : front.length < if after then (front ++ middle).length else str.size := by
      split
      · rw [List.length_append]
        omega
      · omega
    have fits := str.size_lt
    have start : (if before then front.length else 0) ≤ str.size := by omega
    obtain ⟨out, cut, text⟩ := substr_eq
      ((if after then (front ++ middle).length else str.size) - if before then front.length else 0) start
    refine ⟨out, ?_, by rw [text, framed.withoutRuns, List.drop_take]⟩
    rw [trimOf, if_neg (by simpa [or_iff_not_imp_left] using asked)]
    dsimp only
    rw [place, if_neg (by omega), if_pos (Nat.ne_of_lt below), sizeSub_eq below (by omega), sizeAdd_one (by omega), ← cut]
    congr 1
    omega
  · obtain ⟨first, last⟩ := not_or.mp asked
    rw [Bool.not_eq_true] at first last
    subst first last
    exact ⟨str, rfl, rfl⟩

end Mixed

section Runs

variable {target : Char} {str : StdString Char} {before after : Bool}

theorem trimOf_run (run : ∀ c ∈ str.text, c = target) (before after : Bool) : trimOf str target before after = some str := by
  rw [trimOf]
  split
  next => rfl
  next =>
    dsimp only
    cases before with
    | true => rw [if_pos rfl, findFirstNotOf_all run, if_pos rfl]
    | false =>
      have last : after = true := by simp_all
      obtain ⟨out, cut, text⟩ := str.substr_eq npos (Nat.zero_le _)
      rw [if_neg Bool.false_ne_true, if_neg str.zero_ne_npos, if_pos last, findLastNotOf_all run, if_neg (not_not.mpr rfl), cut,
        Option.some.injEq]
      apply StdString.ext
      rw [text, List.drop_zero, List.take_of_length_le str.fits.le]

-- Both ends are what most of the callers trim.
theorem trimOf_both (str : StdString Char) (target : Char) :
    ∃ out, trimOf str target true true = some out ∧ out.text = Handler.trimOf str.text target := by
  by_cases run : ∀ c ∈ str.text, c = target
  · have every : str.text.all (· = target) = true := by simpa using run
    exact ⟨str, trimOf_run run true true, by rw [Handler.trimOf, if_pos every]⟩
  · have mixed : ∃ c ∈ str.text, c ≠ target := by simpa using run
    have some' : ¬str.text.all (· = target) = true := by simpa using mixed
    obtain ⟨front, middle, back, framed⟩ := framed_of_mixed mixed
    obtain ⟨out, cut, text⟩ := trimOf_mixed true framed true
    exact ⟨out, cut, by rw [text, Handler.trimOf, if_neg some']; rfl⟩

theorem trimSelfOf_run (run : ∀ c ∈ str.text, c = target) (asked : before = true ∨ after = true) :
    ∃ out, trimSelfOf str target before after = some out ∧ out.text = [] := by
  have cutting : ∃ cut, (if (if after then str.findLastNotOf target else sizeSub str.size 1) ≠ npos then
      str.erase (sizeAdd (if after then str.findLastNotOf target else sizeSub str.size 1) 1) npos else some str) = some cut ∧
      ∀ c ∈ cut.text, c = target := by
    cases after with
    | true =>
      rw [if_pos rfl, findLastNotOf_all run, if_neg (not_not.mpr rfl)]
      exact ⟨str, rfl, run⟩
    | false =>
      rw [if_neg Bool.false_ne_true]
      by_cases none : str.size = 0
      · rw [none, sizeSub_zero_one, if_neg (not_not.mpr rfl)]
        exact ⟨str, rfl, run⟩
      · have fits := str.size_lt
        rw [sizeSub_eq fits (by omega), if_pos (by omega), sizeAdd_one (by omega)]
        obtain ⟨cut, erased, text⟩ := str.erase_eq npos (show str.size - 1 + 1 ≤ str.size by omega)
        refine ⟨cut, erased, fun c there => run c ?_⟩
        rw [text, drop_npos, List.append_nil] at there
        exact List.mem_of_mem_take there
  obtain ⟨cut, erased, rest⟩ := cutting
  rw [trimSelfOf, if_neg (by simpa [or_iff_not_imp_left] using asked)]
  dsimp only
  rw [erased]
  have place : (if before then cut.findFirstNotOf target else if after then str.findLastNotOf target else sizeSub str.size 1) = npos := by
    split
    next => exact findFirstNotOf_all rest
    next unset => rw [if_pos (asked.resolve_left unset), findLastNotOf_all run]
  obtain ⟨out, last, text⟩ := cut.erase_eq npos (Nat.zero_le _)
  refine ⟨out, by rw [← last, ← place]; rfl, ?_⟩
  rw [text, drop_npos, List.take_zero, List.nil_append]

end Runs

section Agreement

variable {text front middle back : Text} {target : Char}

theorem Framed.lone_iff (framed : Framed target text front middle back) :
    (front ++ middle).getLast?.toList = front ++ middle ↔ ∀ c ∈ text.tail, c = target := by
  obtain ⟨inner, c, rfl, other⟩ := framed.last
  rw [framed.whole, ← List.append_assoc, List.getLast?_concat, Option.toList_some]
  cases front ++ inner with
  | nil => simpa using framed.behind
  | cons first more =>
    simp only [List.cons_append, List.append_assoc, List.cons.injEq, List.tail_cons]
    constructor
    · rintro ⟨-, none'⟩
      simp at none'
    · intro run
      exact absurd (run c (by simp)) other

theorem trimming_agrees_iff (str : StdString Char) (target : Char) (before after : Bool) :
    (∃ trimmed, trimSelfOf str target before after = some trimmed ∧ trimOf str target before after = some trimmed ∧
      trimmed.text = withoutRuns target before after str.text) ↔
    (before = false ∧ after = false) ∨ str.text = [] ∨
      ((∃ c ∈ str.text, c ≠ target) ∧ (before = true ∨ after = false ∨ ∀ c ∈ str.text.tail, c = target)) := by
  by_cases asked : before = true ∨ after = true
  · have some' : ¬(before = false ∧ after = false) := by simpa [or_iff_not_imp_left] using asked
    by_cases run : ∀ c ∈ str.text, c = target
    · obtain ⟨out, kept, text⟩ := trimSelfOf_run run asked
      have none' : ¬∃ c ∈ str.text, c ≠ target := by simpa using run
      simp only [kept, trimOf_run run, some', none', false_and, or_false, false_or, Option.some.injEq]
      constructor
      · rintro ⟨trimmed, rfl, rfl, -⟩
        exact text
      · intro empty
        exact ⟨out, rfl, StdString.ext (empty.trans text.symm), by simp [text, empty, withoutRuns]⟩
    · have mixed : ∃ c ∈ str.text, c ≠ target := by simpa using run
      obtain ⟨front, middle, back, framed⟩ := framed_of_mixed mixed
      obtain ⟨left, kept, leftText⟩ := trimSelfOf_mixed after framed asked
      obtain ⟨right, cut, rightText⟩ := trimOf_mixed after framed before
      have present : str.text ≠ [] := by
        rintro empty
        simp [empty] at mixed
      have same : (∃ trimmed, trimSelfOf str target before after = some trimmed ∧ trimOf str target before after = some trimmed ∧
          trimmed.text = withoutRuns target before after str.text) ↔ left.text = withoutRuns target before after str.text := by
        simp only [kept, cut, Option.some.injEq, exists_eq_left', ← rightText]
        exact ⟨fun both => both.2, fun text => ⟨(StdString.ext text).symm, text⟩⟩
      rw [same, leftText]
      simp only [some', present, mixed, true_and, false_or]
      cases before with
      | true => simp
      | false =>
        obtain rfl : after = true := asked.resolve_left Bool.false_ne_true
        simp only [Bool.false_eq_true, if_false, Bool.true_eq_false, false_or, withoutRuns, if_true, framed.rdropWhile]
        exact framed.lone_iff
  · obtain ⟨first, last⟩ := not_or.mp asked
    rw [Bool.not_eq_true] at first last
    subst first last
    exact iff_of_true ⟨str, rfl, rfl, rfl⟩ (.inl ⟨rfl, rfl⟩)

theorem fits_of_short {text : Text} (short : text.length ≤ 3) : text.length < npos := by
  rw [npos]
  omega

theorem trimming_disagrees :
    (∃ padded : StdString Char, padded.text = chars "ab " ∧
      (trimSelfOf padded ' ' false true).map StdString.text = some ['b'] ∧
      (trimOf padded ' ' false true).map StdString.text = some (chars "ab")) ∧
    (∃ blanks : StdString Char, blanks.text = chars "  " ∧
      (trimSelfOf blanks ' ' true true).map StdString.text = some [] ∧ trimOf blanks ' ' true true = some blanks) ∧
    ¬∀ (str : StdString Char) (target : Char) (before after : Bool), ∃ trimmed,
      trimSelfOf str target before after = some trimmed ∧ trimOf str target before after = some trimmed ∧
        trimmed.text = withoutRuns target before after str.text := by
  refine ⟨⟨⟨chars "ab ", fits_of_short (by decide)⟩, rfl, by decide +kernel, by decide +kernel⟩,
    ⟨⟨chars "  ", fits_of_short (by decide)⟩, rfl, by decide +kernel, by decide +kernel⟩, ?_⟩
  intro agree
  obtain ⟨trimmed, kept, cut, -⟩ := agree ⟨chars "ab ", fits_of_short (by decide)⟩ ' ' false true
  have same := kept.trans cut.symm
  revert same
  decide +kernel

end Agreement

end SubConverter.Utils.Trimming
