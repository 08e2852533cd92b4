import SubConverter.Lib.AsciiCase
import SubConverter.Lib.Stripped
import SubConverter.Utils.Redact

set_option autoImplicit false

namespace SubConverter.Utils.Redact

open Handler (isSpace toLower startsWith split)
open Rewriting

-- Decided along the text, not over all characters.
local instance decidableAlong (holds : Char → Prop) [DecidablePred holds] (text : Text) : Decidable (∀ c ∈ text, holds c) :=
  List.decidableBAll holds text

local instance decidableFound (holds : Char → Prop) [DecidablePred holds] (found : Option Char) : Decidable (∀ c, found = some c → holds c) :=
  Option.decidableForallMem found

section Names

variable {text front : Text} {c : Char}

theorem rtakeWhile_append_of_stop {holds : Char → Bool} (front : Text) (stop : ∃ c ∈ text, holds c = false) :
    (front ++ text).rtakeWhile holds = text.rtakeWhile holds := by
  obtain ⟨c, there, fails⟩ := stop
  have short : (text.reverse.takeWhile holds).length ≠ text.reverse.length := by
    intro whole
    have same := (List.takeWhile_prefix holds).eq_of_length whole
    have all := List.takeWhile_eq_self_iff.mp same c (List.mem_reverse.mpr there)
    rw [fails] at all
    cases all
  rw [List.rtakeWhile, List.reverse_append, List.takeWhile_append, if_neg short, List.rtakeWhile]

theorem rtakeWhile_append_of_all {holds : Char → Bool} (front : Text) (all : ∀ c ∈ text, holds c = true) :
    (front ++ text).rtakeWhile holds = front.rtakeWhile holds ++ text := by
  rw [List.rtakeWhile, List.reverse_append, List.takeWhile_append_of_pos fun c there => all c (List.mem_reverse.mp there),
    List.reverse_append, List.reverse_reverse, List.rtakeWhile]

theorem inert_of_alphanum (letter : c.isAlphanum = true) :
    isLineBreak c = false ∧ endsParameter c = false ∧ ∀ mark ∈ [':', '=', '\'', '"', '\\', '\x7b', '\x7d', '[', ']'], c ≠ mark := by
  refine ⟨?_, ?_, ?_⟩
  · by_contra broken
    have among : c ∈ ['\r', '\n'] := by simpa [isLineBreak, or_iff_not_imp_left] using broken
    have none' : ∀ c ∈ ['\r', '\n'], c.isAlphanum = false := by decide
    rw [none' c among] at letter
    cases letter
  · by_contra ends
    have among : c ∈ ['&', '|', '\r', '\n', '\t', ' ', '\'', '"', '<', '>'] := by
      simpa only [endsParameter, Bool.not_eq_false, decide_eq_true_eq] using ends
    have none' : ∀ c ∈ ['&', '|', '\r', '\n', '\t', ' ', '\'', '"', '<', '>'], c.isAlphanum = false := by decide
    rw [none' c among] at letter
    cases letter
  · rintro mark among rfl
    have none' : ∀ c ∈ [':', '=', '\'', '"', '\\', '\x7b', '\x7d', '[', ']'], c.isAlphanum = false := by decide
    rw [none' c among] at letter
    cases letter

theorem key_of_normalized (key : ∀ d ∈ normalized text, structuredKeyCharacter d) : ∀ c ∈ text, structuredKeyCharacter c := by
  intro c there
  by_cases plain : c.isAlphanum = true
  · simp [structuredKeyCharacter, plain]
  · have same := toLower_of_not_alphanum (Bool.not_eq_true _ ▸ plain)
    have image : (if (if c = '-' then '_' else c) = '.' then '_' else (if c = '-' then '_' else c)) ∈ normalized text := by
      simp only [normalized, toLower, List.map_map, List.mem_map, Function.comp]
      exact ⟨c, there, by rw [same]⟩
    have here := key _ image
    by_cases dash : c = '-'
    · rw [dash]
      decide
    · by_cases dot : c = '.'
      · rw [dot]
        decide
      · simpa [dash, dot] using here

theorem sensitive_characters : (∀ name ∈ sensitiveNames, ∀ c ∈ name, structuredKeyCharacter c) ∧
    ∀ suffix ∈ sensitiveSuffixes, ∀ c ∈ suffix, structuredKeyCharacter c := by
  constructor <;> decide

theorem sensitive_run {name : Text} (sensitive : sensitiveParameter name = true)
    (boundary : ∀ c, front.getLast? = some c → structuredKeyCharacter c = false) :
    sensitiveParameter ((front ++ name).rtakeWhile structuredKeyCharacter) = true := by
  rw [sensitiveParameter, Bool.or_eq_true, decide_eq_true_eq, List.any_eq_true] at sensitive
  rcases sensitive with listed | ⟨suffix, listed, ends⟩
  · have key := key_of_normalized (sensitive_characters.1 _ listed)
    have whole : (front ++ name).rtakeWhile structuredKeyCharacter = name := by
      have stop : front.rtakeWhile structuredKeyCharacter = [] := by
        rw [List.rtakeWhile_eq_nil_iff]
        intro some'
        rw [boundary _ (List.getLast?_eq_getLast_of_ne_nil some')]
        exact Bool.false_ne_true
      rw [rtakeWhile_append_of_all _ key, stop, List.nil_append]
    rw [whole, sensitiveParameter, Bool.or_eq_true]
    exact .inl (decide_eq_true listed)
  · obtain ⟨first, same⟩ := List.isSuffixOf_iff_suffix.mp ends
    obtain ⟨head, tail, rfl, -, last⟩ : ∃ head tail, name = head ++ tail ∧ normalized head = first ∧ normalized tail = suffix := by
      simp only [normalized, toLower, List.map_map] at same ⊢
      obtain ⟨head, tail, rfl, left, right⟩ := List.map_eq_append_iff.mp same.symm
      exact ⟨head, tail, rfl, left, right⟩
    have key := key_of_normalized (last ▸ sensitive_characters.2 _ listed)
    have run : (front ++ (head ++ tail)).rtakeWhile structuredKeyCharacter =
        (front ++ head).rtakeWhile structuredKeyCharacter ++ tail := by
      rw [← List.append_assoc, rtakeWhile_append_of_all _ key]
    rw [run, sensitiveParameter, Bool.or_eq_true, List.any_eq_true]
    refine .inr ⟨suffix, listed, List.isSuffixOf_iff_suffix.mpr ?_⟩
    have split : normalized ((front ++ head).rtakeWhile structuredKeyCharacter ++ tail) =
        normalized ((front ++ head).rtakeWhile structuredKeyCharacter) ++ suffix := by
      simp only [normalized, toLower, List.map_append] at last ⊢
      rw [last]
    exact split ▸ List.suffix_append _ _

end Names

section Fronts

def EndsNamed (text : Text) : Prop :=
  ∃ front, text = front ++ ['='] ∧ sensitiveParameter (front.rtakeWhile structuredKeyCharacter) = true

structure Secret (secret : Text) : Prop where
  nonempty : secret ≠ []
  plain : ∀ c ∈ secret, c.isAlphanum = true

def hiddenBefore (rest : Text) : Set Text := {text | ∃ secret, Secret secret ∧ text = secret ++ rest}

theorem endsNamed_split {before front : Text} (named : EndsNamed (before ++ front)) (some' : front ≠ []) :
    ∃ inner, front = inner ++ ['='] ∧ sensitiveParameter ((before ++ inner).rtakeWhile structuredKeyCharacter) = true := by
  obtain ⟨whole, same, sensitive⟩ := named
  rcases List.eq_nil_or_concat front with rfl | ⟨inner, last, rfl⟩
  · exact absurd rfl some'
  · rw [List.concat_eq_append, ← List.append_assoc] at same
    obtain ⟨rfl, equals⟩ := List.append_inj' same rfl
    exact ⟨inner, by rw [List.concat_eq_append, equals], sensitive⟩

theorem endsNamed_of_stop {before inner left : Text} (other : Text)
    (sensitive : sensitiveParameter ((before ++ inner).rtakeWhile structuredKeyCharacter) = true) (within : left <:+ inner)
    (stop : ∃ c ∈ left, structuredKeyCharacter c = false) : EndsNamed (other ++ (left ++ ['='])) := by
  obtain ⟨taken, rfl⟩ := within
  rw [← List.append_assoc, rtakeWhile_append_of_stop _ stop] at sensitive
  exact ⟨other ++ left, (List.append_assoc _ _ _).symm, by rwa [rtakeWhile_append_of_stop _ stop]⟩

theorem prefix_of_mark {mark : Char} {part inner rest : Text} (outside : mark ∉ part) :
    part <+: inner ++ mark :: rest ↔ part <+: inner := by
  constructor
  · intro starts
    rcases Nat.le_total part.length inner.length with short | long
    · exact List.prefix_of_prefix_length_le starts (List.prefix_append _ _) short
    · obtain ⟨more, rfl⟩ := List.prefix_of_prefix_length_le (List.prefix_append _ _) starts long
      rw [List.prefix_append_right_inj] at starts
      cases more with
      | nil => exact ⟨[], by simp⟩
      | cons c more =>
        obtain ⟨same, -⟩ := List.cons_prefix_cons.mp starts
        exact absurd (by simp [same]) outside
  · exact fun starts => starts.trans (List.prefix_append _ _)

theorem toLower_append (front back : Text) : toLower (front ++ back) = toLower front ++ toLower back := List.map_append

section Values

variable {rest : Text} {c : Char}

theorem headerValueEnd_cons (plain : isLineBreak c = false) (rest : Text) : headerValueEnd (c :: rest) = headerValueEnd rest := by
  simp only [isLineBreak, Bool.or_eq_false_iff, decide_eq_false_iff_not] at plain
  cases rest with
  | nil => simp [headerValueEnd, isLineBreak, plain]
  | cons d rest =>
    rw [headerValueEnd.eq_def]
    split <;> simp_all

theorem headerValueEnd_append {part : Text} (plain : ∀ c ∈ part, isLineBreak c = false) (rest : Text) :
    headerValueEnd (part ++ rest) = headerValueEnd rest := by
  induction part with
  | nil => rfl
  | cons c part ih =>
    rw [List.forall_mem_cons] at plain
    rw [List.cons_append, headerValueEnd_cons plain.1, ih plain.2]

theorem headerValueEnd_front (inner : Text) :
    (∃ left, left <:+ inner ∧ (∃ c ∈ left, structuredKeyCharacter c = false) ∧
      ∀ text, headerValueEnd (inner ++ '=' :: text) = left ++ '=' :: text) ∨
    ∀ text, headerValueEnd (inner ++ '=' :: text) = headerValueEnd text := by
  induction inner using headerValueEnd.induct with
  | case1 => exact .inr fun text => headerValueEnd_cons (by decide) text
  | case2 c rest blank ih =>
    have folded (text : Text) : headerValueEnd ('\r' :: '\n' :: c :: rest ++ '=' :: text) = headerValueEnd (rest ++ '=' :: text) := by
      rw [List.cons_append, List.cons_append, List.cons_append, headerValueEnd, if_pos blank]
    simp only [folded]
    exact ih.imp_left fun ⟨left, within, stop⟩ => ⟨left, within.trans (List.suffix_append ['\r', '\n', c] rest), stop⟩
  | case3 c rest blank =>
    refine .inl ⟨'\r' :: '\n' :: c :: rest, List.suffix_rfl, ⟨'\r', by simp, by decide⟩, fun text => ?_⟩
    rw [List.cons_append, List.cons_append, List.cons_append, headerValueEnd, if_neg blank]
  | case4 c rest crlf blank ih =>
    have folded (text : Text) : headerValueEnd ('\r' :: c :: rest ++ '=' :: text) = headerValueEnd (rest ++ '=' :: text) := by
      rw [List.cons_append, List.cons_append, headerValueEnd, if_pos blank]
      rintro d more rfl
      simp at blank
    simp only [folded]
    exact ih.imp_left fun ⟨left, within, stop⟩ => ⟨left, within.trans (List.suffix_append ['\r', c] rest), stop⟩
  | case5 c rest crlf blank =>
    refine .inl ⟨'\r' :: c :: rest, List.suffix_rfl, ⟨'\r', by simp, by decide⟩, fun text => ?_⟩
    by_cases newline : c = '\n'
    · subst newline
      cases rest with
      | nil => simp [headerValueEnd]
      | cons d more => exact absurd rfl (crlf d more rfl)
    · rw [List.cons_append, List.cons_append, headerValueEnd, if_neg blank]
      exact fun d more here => absurd here newline
  | case6 c rest blank ih =>
    have folded (text : Text) : headerValueEnd ('\n' :: c :: rest ++ '=' :: text) = headerValueEnd (rest ++ '=' :: text) := by
      rw [List.cons_append, List.cons_append, headerValueEnd, if_pos blank]
    simp only [folded]
    exact ih.imp_left fun ⟨left, within, stop⟩ => ⟨left, within.trans (List.suffix_append ['\n', c] rest), stop⟩
  | case7 c rest blank =>
    refine .inl ⟨'\n' :: c :: rest, List.suffix_rfl, ⟨'\n', by simp, by decide⟩, fun text => ?_⟩
    rw [List.cons_append, List.cons_append, headerValueEnd, if_neg blank]
  | case8 c broken =>
    have either : c = '\r' ∨ c = '\n' := by simpa [isLineBreak] using broken
    refine .inl ⟨[c], List.suffix_rfl, ⟨c, by simp, ?_⟩, fun text => ?_⟩
    · rcases either with rfl | rfl <;> decide
    · rcases either with rfl | rfl <;> simp [headerValueEnd]
  | case9 c plain =>
    refine .inr fun text => ?_
    rw [List.cons_append, headerValueEnd_cons (Bool.not_eq_true _ ▸ plain)]
    exact headerValueEnd_cons (by decide) text
  | case10 c rest _ cr lf some' ih =>
    obtain ⟨d, more, rfl⟩ := List.exists_cons_of_ne_nil some'
    have plain : isLineBreak c = false := by
      simp only [isLineBreak, Bool.or_eq_false_iff, decide_eq_false_iff_not]
      exact ⟨fun here => cr d more here rfl, fun here => lf d more here rfl⟩
    simp only [List.cons_append, headerValueEnd_cons plain] at ih ⊢
    exact ih.imp_left fun ⟨left, within, stop⟩ => ⟨left, within.trans (List.suffix_cons c _), stop⟩

end Values

section Headers

variable {rest : Text}

theorem header_characters : ∀ name ∈ headerNames, ∀ c ∈ name ++ [':'], c ≠ '=' ∧ endsParameter c = false := by
  decide

theorem headerNames_find (inner : Text) {mark : Char} (lower : mark.toLower = mark)
    (outside : ∀ name ∈ headerNames, mark ∉ name ++ [':']) (text : Text) :
    (headerNames.find? fun name => startsWith (toLower (inner ++ mark :: text)) (name ++ [':'])) =
      headerNames.find? fun name => startsWith (toLower inner) (name ++ [':']) := by
  refine List.find?_congr fun name listed => ?_
  rw [Bool.eq_iff_iff, startsWith, startsWith, List.isPrefixOf_iff_prefix, List.isPrefixOf_iff_prefix, toLower_append]
  have head : toLower (mark :: text) = mark :: toLower text := by
    rw [toLower, List.map_cons, lower]
    rfl
  rw [head]
  exact prefix_of_mark (outside name listed)

theorem headerValueEnd_suffix (text : Text) : headerValueEnd text <:+ text := by
  induction text using headerValueEnd.induct with
  | case1 => exact List.suffix_rfl
  | case2 c rest blank ih =>
    rw [headerValueEnd, if_pos blank]
    exact ih.trans (List.suffix_append ['\r', '\n', c] rest)
  | case3 c rest blank =>
    rw [headerValueEnd, if_neg blank]
  | case4 c rest crlf blank ih =>
    rw [headerValueEnd, if_pos blank]
    · exact ih.trans (List.suffix_append ['\r', c] rest)
    · exact crlf
  | case5 c rest crlf blank =>
    rw [headerValueEnd, if_neg blank]
    exact crlf
  | case6 c rest blank ih =>
    rw [headerValueEnd, if_pos blank]
    exact ih.trans (List.suffix_append ['\n', c] rest)
  | case7 c rest blank =>
    rw [headerValueEnd, if_neg blank]
  | case8 c broken =>
    simp [headerValueEnd, broken]
  | case9 c plain =>
    rw [headerValueEnd_cons (Bool.not_eq_true _ ▸ plain)]
    exact List.nil_suffix
  | case10 c rest crlf cr lf some' ih =>
    obtain ⟨d, more, rfl⟩ := List.exists_cons_of_ne_nil some'
    have plain : isLineBreak c = false := by
      simp only [isLineBreak, Bool.or_eq_false_iff, decide_eq_false_iff_not]
      exact ⟨fun here => cr d more here rfl, fun here => lf d more here rfl⟩
    rw [headerValueEnd_cons plain]
    exact ih.trans (List.suffix_cons c _)

theorem advances_header : Advances headerAt where
  within := by
    intro before rest out left c hit
    rw [headerAt] at hit
    split at hit
    next =>
      cases found : headerNames.find? fun name => startsWith (toLower (c :: rest)) (name ++ [':']) with
      | none =>
        rw [found] at hit
        cases hit
      | some name =>
        rw [found] at hit
        cases hit
        exact (headerValueEnd_suffix _).trans (List.drop_suffix name.length rest)
    next => cases hit

theorem headerAt_front {before front : Text} {c : Char} (named : EndsNamed (before ++ c :: front)) :
    ((∀ text ∈ hiddenBefore rest, headerAt before (c :: (front ++ text)) = none) ∧ EndsNamed ((before ++ [c]) ++ front)) ∨
    (∃ out left, left <:+ front ∧ EndsNamed ((before ++ out) ++ left) ∧
      ∀ text ∈ hiddenBefore rest, headerAt before (c :: (front ++ text)) = some (out, left ++ text)) ∨
    ∃ out left, ∀ text ∈ hiddenBefore rest, headerAt before (c :: (front ++ text)) = some (out, left) := by
  obtain ⟨inner, same, sensitive⟩ := endsNamed_split named (List.cons_ne_nil c front)
  have whole (text : Text) : c :: (front ++ text) = inner ++ '=' :: text := by
    rw [← List.cons_append, same, List.append_assoc, List.singleton_append]
  have found (text : Text) := headerNames_find inner (by decide : '='.toLower = '=')
    (fun name listed there => (header_characters name listed _ there).1 rfl) text
  simp only [whole, headerAt, found]
  split
  next outside =>
    cases hit : headerNames.find? fun name => startsWith (toLower inner) (name ++ [':']) with
    | none => exact .inl ⟨fun _ _ => rfl, by rwa [List.append_assoc]⟩
    | some name =>
      have starts : name ++ [':'] <+: toLower inner := by
        have first := List.find?_some hit
        rwa [startsWith, List.isPrefixOf_iff_prefix] at first
      have short : name.length + 1 ≤ inner.length := by
        simpa [toLower] using starts.length_le
      have name_out (text : Text) : (inner ++ '=' :: text).take (name.length + 1) = inner.take (name.length + 1) :=
        List.take_append_of_le_length short
      have value (text : Text) : (inner ++ '=' :: text).drop (name.length + 1) = inner.drop (name.length + 1) ++ '=' :: text :=
        List.drop_append_of_le_length short
      simp only [name_out, value]
      rcases headerValueEnd_front (inner.drop (name.length + 1)) with ⟨left, within, stop, ends⟩ | ends
      · have inside : left <:+ inner := within.trans (List.drop_suffix _ _)
        refine .inr (.inl ⟨inner.take (name.length + 1) ++ chars " <redacted>", left ++ ['='], ?_,
          endsNamed_of_stop _ sensitive inside stop, fun text _ => ?_⟩)
        · have behind : inner.drop (name.length + 1) ++ ['='] = front.drop name.length := by
            rw [← List.drop_append_of_le_length short, ← same, List.drop_succ_cons]
          obtain ⟨taken, split⟩ := within
          refine List.IsSuffix.trans ⟨taken, ?_⟩ (List.drop_suffix name.length front)
          rw [← behind, ← split, List.append_assoc]
        · rw [ends, List.append_assoc, List.singleton_append]
      · refine .inr (.inr ⟨inner.take (name.length + 1) ++ chars " <redacted>", headerValueEnd rest, ?_⟩)
        rintro text ⟨secret, hides, rfl⟩
        rw [ends, headerValueEnd_append fun c there => (inert_of_alphanum (hides.plain c there)).1]
  next => exact .inl ⟨fun _ _ => rfl, by rwa [List.append_assoc]⟩

theorem headerAt_secret {before part : Text} (plain : ∀ c ∈ part, c.isAlphanum = true)
    (stops : ∀ c, rest.head? = some c → endsParameter c = true) : headerAt before (part ++ rest) = none := by
  have colon : ':' ∉ toLower part := by
    intro there
    obtain ⟨d, among, lower⟩ := List.mem_map.mp there
    exact (inert_of_alphanum (plain d among)).2.2 ':' (by decide) (eq_of_toLower (by decide) lower)
  have alone : (headerNames.find? fun name => startsWith (toLower part) (name ++ [':'])) = none := by
    rw [List.find?_eq_none]
    intro name _ starts
    rw [startsWith, List.isPrefixOf_iff_prefix] at starts
    exact colon (starts.subset (by simp))
  have nowhere : (headerNames.find? fun name => startsWith (toLower (part ++ rest)) (name ++ [':'])) = none := by
    cases rest with
    | nil => rwa [List.append_nil]
    | cons mark more =>
      have ends := stops mark rfl
      have lower : mark.toLower = mark := toLower_of_not_alphanum (by
        by_contra letter
        rw [(inert_of_alphanum (Bool.not_eq_false _ ▸ letter)).2.1] at ends
        cases ends)
      have outside : ∀ name ∈ headerNames, mark ∉ name ++ [':'] := by
        intro name listed there
        rw [(header_characters name listed mark there).2] at ends
        cases ends
      rw [headerNames_find _ lower outside]
      exact alone
  rw [headerAt, nowhere]
  split <;> rfl

section Lines

def Nesting.Quoted (nesting : Nesting) : Prop := ∀ quote, nesting.quote = some quote → quote = '\'' ∨ quote = '"'

variable {nesting : Nesting} {c : Char}

theorem quoted_step (quoted : nesting.Quoted) (opening closing : List Char) (c : Char) :
    (Nesting.step opening closing nesting c).Quoted := by
  intro quote
  rw [Nesting.step]
  split
  next open' here =>
    split
    next => rintro ⟨⟩
    next => exact fun same => quoted quote same
  next closed =>
    split
    next mark =>
      rintro ⟨⟩
      exact mark
    next =>
      have none' (other : Nesting) (same : other.quote = nesting.quote) : other.quote = some quote → quote = '\'' ∨ quote = '"' := by
        intro here
        rw [same, closed] at here
        cases here
      split
      next => exact none' _ rfl
      next =>
        split
        next => exact none' _ rfl
        next => exact none' _ rfl

theorem quoted_foldl (quoted : nesting.Quoted) (opening closing : List Char) (line : Text) :
    (line.foldl (Nesting.step opening closing) nesting).Quoted := by
  induction line generalizing nesting with
  | nil => exact quoted
  | cons c rest ih => exact ih (quoted_step quoted opening closing c)

theorem step_alphanum (quoted : nesting.Quoted) (letter : c.isAlphanum = true) :
    Nesting.step ['\x7b', '['] ['\x7d', ']'] nesting c = { nesting with backslashes := 0 } := by
  have other := (inert_of_alphanum letter).2.2
  have backslash : c ≠ '\\' := other _ (by decide)
  rw [Nesting.step, if_neg backslash]
  split
  next quote here =>
    rw [if_neg]
    rintro ⟨rfl, -⟩
    rcases quoted c here with same | same
    · exact other _ (by decide) same
    · exact other _ (by decide) same
  next =>
    have marks : ¬(c = '\'' ∨ c = '"') := by
      rintro (same | same)
      · exact other _ (by decide) same
      · exact other _ (by decide) same
    have opens : c ∉ ['\x7b', '['] := by
      intro there
      refine other c ?_ rfl
      simp only [List.mem_cons] at there ⊢
      tauto
    have closes : ¬(c ∈ ['\x7d', ']'] ∧ nesting.depth > 0) := by
      rintro ⟨there, -⟩
      refine other c ?_ rfl
      simp only [List.mem_cons] at there ⊢
      tauto
    rw [if_neg marks, if_neg opens, if_neg closes]

theorem foldl_secret {secret : Text} (hides : Secret secret) (quoted : nesting.Quoted) :
    secret.foldl (Nesting.step ['\x7b', '['] ['\x7d', ']']) nesting = { nesting with backslashes := 0 } := by
  obtain ⟨some', plain⟩ := hides
  induction secret generalizing nesting with
  | nil => exact absurd rfl some'
  | cons c rest ih =>
    rw [List.forall_mem_cons] at plain
    rw [List.foldl_cons, step_alphanum quoted plain.1]
    cases rest with
    | nil => rfl
    | cons d more => exact ih quoted (List.cons_ne_nil d more) plain.2

theorem inside_of_secret {secret other : Text} (hides : Secret secret) (hides' : Secret other) (front back : Text) :
    insideStructuredContainerOnLine (front ++ secret ++ back) = insideStructuredContainerOnLine (front ++ other ++ back) := by
  by_cases broken : ∃ c ∈ back, (!isLineBreak c) = false
  · rw [insideStructuredContainerOnLine, insideStructuredContainerOnLine, rtakeWhile_append_of_stop _ broken,
      rtakeWhile_append_of_stop _ broken]
  · have plain : ∀ c ∈ back, (!isLineBreak c) = true := by simpa using broken
    have line (text : Text) (secret : Secret text) : (front ++ text ++ back).rtakeWhile (fun c => !isLineBreak c) =
        front.rtakeWhile (fun c => !isLineBreak c) ++ text ++ back := by
      rw [rtakeWhile_append_of_all _ plain, rtakeWhile_append_of_all]
      intro c there
      rw [(inert_of_alphanum (secret.plain c there)).1]
      rfl
    have start : Nesting.Quoted {} := by
      intro quote none'
      cases none'
    simp only [insideStructuredContainerOnLine, line _ hides, line _ hides', List.foldl_append]
    rw [foldl_secret hides (quoted_foldl start _ _ _), foldl_secret hides' (quoted_foldl start _ _ _)]

theorem headerAt_behind {secret other : Text} (hides : Secret secret) (hides' : Secret other) (front back text : Text) :
    headerAt (front ++ secret ++ back) text = headerAt (front ++ other ++ back) text := by
  have boundary : headerBoundary (front ++ secret ++ back) = headerBoundary (front ++ other ++ back) := by
    rcases List.eq_nil_or_concat back with rfl | ⟨more, last, rfl⟩
    · have closed (text : Text) (secret : Secret text) : headerBoundary (front ++ text ++ []) = false := by
        obtain ⟨inner, last, rfl⟩ := (List.eq_nil_or_concat text).resolve_left secret.nonempty
        have letter := secret.plain last (by simp)
        rw [headerBoundary]
        simp [letter]
      rw [closed _ hides, closed _ hides']
    · rw [headerBoundary, headerBoundary, List.concat_eq_append, ← List.append_assoc, ← List.append_assoc, List.getLast?_concat,
        List.getLast?_concat]
  rw [headerAt, headerAt, boundary, inside_of_secret hides hides']

end Lines

end Headers

section Parameters

variable {rest : Text}

theorem redactHeaders_secret {front : Text} (named : EndsNamed front) (stops : ∀ c, rest.head? = some c → endsParameter c = true) :
    (∃ before behind, EndsNamed before ∧ (∀ c, behind.head? = some c → endsParameter c = true) ∧
      ∀ secret, Secret secret → redactHeaders (front ++ (secret ++ rest)) = before ++ (secret ++ behind)) ∨
    ∃ result, ∀ secret, Secret secret → redactHeaders (front ++ (secret ++ rest)) = result := by
  have start : EndsNamed ([] ++ front) := named
  rcases rewriteFrom_front advances_header (fun before front => EndsNamed (before ++ front)) (hiddenBefore rest)
    headerAt_front start with ⟨before, last, same⟩ | ⟨result, same⟩
  · rw [List.append_nil] at last
    have through (secret : Text) (hides : Secret secret) :
        redactHeaders (front ++ (secret ++ rest)) = rewriteFrom headerAt (before ++ secret) 0 rest := by
      refine (same _ ⟨secret, hides, rfl⟩).trans (rewriteFrom_misses fun taken c more split => ?_)
      rw [← List.cons_append]
      exact headerAt_secret (fun d there => hides.plain d (by rw [split]; exact List.mem_append_right _ there)) stops
    cases rest with
    | nil => exact .inl ⟨before, [], last, stops, fun secret hides => by rw [through secret hides, List.append_nil]; rfl⟩
    | cons mark more =>
      obtain ⟨result, later⟩ := rewriteFrom_behind advances_header
        {text | ∃ secret, Secret secret ∧ text = before ++ secret ++ [mark]} (by
          rintro _ ⟨secret, hides, rfl⟩ _ ⟨other, hides', rfl⟩ back left -
          rw [List.append_assoc _ [mark], List.append_assoc _ [mark]]
          exact headerAt_behind hides hides' before _ left) []
      refine .inl ⟨before, mark :: result, last, fun c here => stops c here, fun secret hides => ?_⟩
      have miss : headerAt (before ++ secret) (mark :: more) = none := headerAt_secret (List.forall_mem_nil _) stops
      rw [through secret hides, rewriteFrom_miss miss, ← List.append_nil (_ ++ [mark]), later _ ⟨secret, hides, rfl⟩]
      simp
  · exact .inr ⟨result, fun secret hides => same _ ⟨secret, hides, rfl⟩⟩

theorem namedParameterAt_cons (before : Text) (c : Char) (text : Text) :
    namedParameterAt before (c :: text) =
      if c = '=' ∧ sensitiveParameter (before.rtakeWhile structuredKeyCharacter) = true then
        some ('=' :: replacement, text.dropWhile fun c => !endsParameter c)
      else none := by
  by_cases equals : c = '='
  · subst equals
    rw [namedParameterAt]
    simp only [true_and]
  · rw [if_neg fun both => equals both.1]
    rw [namedParameterAt.eq_def]
    split
    next => exact absurd (by simp_all) equals
    next => rfl

theorem advances_parameter : Advances namedParameterAt where
  within := by
    intro before rest out left c hit
    rw [namedParameterAt_cons] at hit
    split at hit
    next =>
      cases hit
      exact List.dropWhile_suffix _
    next => cases hit

theorem parameterValue_front (inner : Text) :
    (∃ left, left <:+ inner ∧ (∃ c ∈ left, structuredKeyCharacter c = false) ∧
      ∀ text, (inner ++ '=' :: text).dropWhile (fun c => !endsParameter c) = left ++ '=' :: text) ∨
    ∀ text, (inner ++ '=' :: text).dropWhile (fun c => !endsParameter c) = text.dropWhile fun c => !endsParameter c := by
  cases left : inner.dropWhile fun c => !endsParameter c with
  | nil =>
    refine .inr fun text => ?_
    rw [List.dropWhile_append_of_pos (List.dropWhile_eq_nil_iff.mp left)]
    rfl
  | cons mark more =>
    refine .inl ⟨mark :: more, left ▸ List.dropWhile_suffix _, ⟨mark, List.mem_cons_self, ?_⟩, fun text => ?_⟩
    · have ends : endsParameter mark = true := by
        have found := List.head?_dropWhile_not (fun c => !endsParameter c) inner
        simpa [left] using found
      have none' : ∀ c ∈ ['&', '|', '\r', '\n', '\t', ' ', '\'', '"', '<', '>'], structuredKeyCharacter c = false := by decide
      exact none' mark (by simpa only [endsParameter, decide_eq_true_eq] using ends)
    · rw [List.dropWhile_append, left]
      rfl

theorem namedParameterAt_front {before front : Text} {c : Char} (stops : ∀ c, rest.head? = some c → endsParameter c = true)
    (state : c :: front ≠ [] ∧ EndsNamed (before ++ c :: front)) :
    ((∀ text ∈ hiddenBefore rest, namedParameterAt before (c :: (front ++ text)) = none) ∧
      front ≠ [] ∧ EndsNamed ((before ++ [c]) ++ front)) ∨
    (∃ out left, left <:+ front ∧ (left ≠ [] ∧ EndsNamed ((before ++ out) ++ left)) ∧
      ∀ text ∈ hiddenBefore rest, namedParameterAt before (c :: (front ++ text)) = some (out, left ++ text)) ∨
    ∃ out left, ∀ text ∈ hiddenBefore rest, namedParameterAt before (c :: (front ++ text)) = some (out, left) := by
  obtain ⟨inner, same, sensitive⟩ := endsNamed_split state.2 state.1
  have gone (text : Text) (among : text ∈ hiddenBefore rest) : text.dropWhile (fun c => !endsParameter c) = rest := by
    obtain ⟨secret, hides, rfl⟩ := among
    rw [List.dropWhile_append_of_pos fun c there => by rw [(inert_of_alphanum (hides.plain c there)).2.1]; rfl]
    cases rest with
    | nil => rfl
    | cons mark more => rw [List.dropWhile_cons_of_neg (by rw [stops mark rfl]; decide)]
  simp only [namedParameterAt_cons]
  cases inner with
  | nil =>
    obtain ⟨rfl, rfl⟩ := List.cons.inj same
    rw [List.append_nil] at sensitive
    refine .inr (.inr ⟨'=' :: replacement, rest, fun text among => ?_⟩)
    rw [if_pos ⟨rfl, sensitive⟩, List.nil_append, gone text among]
  | cons d inner =>
    rw [List.cons_append] at same
    obtain ⟨rfl, rfl⟩ := List.cons.inj same
    split
    next =>
      have whole (text : Text) : inner ++ ['='] ++ text = inner ++ '=' :: text := by simp
      simp only [whole]
      rcases parameterValue_front inner with ⟨left, within, stop, ends⟩ | ends
      · refine .inr (.inl ⟨'=' :: replacement, left ++ ['='], ?_, ⟨by simp, ?_⟩, fun text _ => ?_⟩)
        · obtain ⟨taken, rfl⟩ := within
          exact ⟨taken, by rw [List.append_assoc]⟩
        · exact endsNamed_of_stop _ sensitive (within.trans (List.suffix_cons c inner)) stop
        · rw [ends, List.append_assoc, List.singleton_append]
      · exact .inr (.inr ⟨'=' :: replacement, rest, fun text among => by rw [ends, gone text among]⟩)
    next => exact .inl ⟨fun _ _ => rfl, by simp, by simpa using state.2⟩

theorem redactNamedParameters_secret {front : Text} (named : EndsNamed front)
    (stops : ∀ c, rest.head? = some c → endsParameter c = true) :
    ∃ result, ∀ secret, Secret secret → redactNamedParameters (front ++ (secret ++ rest)) = result := by
  have some' : front ≠ [] := by
    rintro rfl
    obtain ⟨inner, same, -⟩ := named
    simp at same
  have start : front ≠ [] ∧ EndsNamed ([] ++ front) := ⟨some', named⟩
  rcases rewriteFrom_front advances_parameter (fun before front => front ≠ [] ∧ EndsNamed (before ++ front)) (hiddenBefore rest)
    (namedParameterAt_front stops) start with ⟨before, last, -⟩ | ⟨result, same⟩
  · exact absurd rfl last.1
  · exact ⟨result, fun secret hides => same _ ⟨secret, hides, rfl⟩⟩

end Parameters

end Fronts

section Logs

structure LogUrl where
  scheme : Text
  userinfo : Option Text
  host : Text
  tail : Text
  scheme_plain : ':' ∉ scheme
  userinfo_plain : ∀ info, userinfo = some info → ∀ c ∈ info, c ∉ ['/', '?', '#']
  host_plain : ∀ c ∈ host, c ∉ ['/', '?', '#', '@']
  tail_starts : ∀ c, tail.head? = some c → c ∈ ['/', '?', '#']

def LogUrl.authority (url : LogUrl) : Text :=
  match url.userinfo with
  | some info => info ++ '@' :: url.host
  | none => url.host

def LogUrl.text (url : LogUrl) : Text := url.scheme ++ chars "://" ++ (url.authority ++ url.tail)

theorem authority_plain (url : LogUrl) : ∀ c ∈ url.authority, c ∉ ['/', '?', '#'] := by
  have host : ∀ c ∈ url.host, c ∉ ['/', '?', '#'] := fun c there among => url.host_plain c there (by
    simp only [List.mem_cons] at among ⊢
    tauto)
  rw [LogUrl.authority]
  split
  next info given =>
    intro c there
    rcases List.mem_append.mp there with before | behind
    · exact url.userinfo_plain info given c before
    · rcases List.mem_cons.mp behind with rfl | behind
      · decide
      · exact host c behind
  next => exact host

theorem host_of_authority (url : LogUrl) :
    (if '@' ∈ url.authority then url.authority.rtakeWhile fun c => c ≠ '@' else url.authority) = url.host := by
  have plain : ∀ c ∈ url.host, (decide (c ≠ '@')) = true := by
    intro c there
    refine decide_eq_true fun same => url.host_plain c there ?_
    rw [same]
    decide
  rw [LogUrl.authority]
  split
  next info given =>
    rw [if_pos (by simp), ← List.singleton_append, ← List.append_assoc, rtakeWhile_append_of_all _ plain]
    rw [List.rtakeWhile_concat_neg _ _ _ (by simp), List.nil_append]
  next =>
    rw [if_neg fun there => url.host_plain _ there (by decide)]

theorem summarizeUrlForLog_text (url : LogUrl) : summarizeUrlForLog url.text =
    chars "scheme=" ++ (if urlScheme (url.scheme ++ [':']) = [] then chars "opaque" else urlScheme (url.scheme ++ [':'])) ++
      (if (urlScheme (url.scheme ++ [':']) = chars "http" ∨ urlScheme (url.scheme ++ [':']) = chars "https") ∧
        safeAuthorityForLog url.host then chars " host=" ++ url.host else []) ++
      chars " " ++ (chars "length=" ++ decimal url.text.length) := by
  have scheme (rest : Text) : cutAt [':'] (url.scheme ++ ':' :: rest) = some (url.scheme, rest) :=
    cutAt_mark_iff.mpr ⟨rfl, url.scheme_plain⟩
  have same : urlScheme url.text = urlScheme (url.scheme ++ [':']) := by
    have split : url.text = url.scheme ++ ':' :: (chars "//" ++ (url.authority ++ url.tail)) := by
      rw [LogUrl.text, List.append_assoc]
      rfl
    rw [urlScheme, urlScheme, split, scheme, scheme]
  have slashes : cutAt (chars "://") url.text = some (url.scheme, url.authority ++ url.tail) := by
    refine (cutAt_eq_some_iff (by decide)).mpr ⟨rfl, ?_⟩
    rintro ⟨left, right, same⟩
    have once := congrArg (List.count ':') same
    simp only [List.count_append, List.count_eq_zero_of_not_mem url.scheme_plain] at once
    change left.count ':' + 1 + right.count ':' = 0 + 1 at once
    have first : ':' ∉ left := List.count_eq_zero.mp (by omega)
    have cut : left ++ ':' :: (chars "//" ++ right) = url.scheme ++ ':' :: chars "/" := by
      rw [show ':' :: (chars "//" ++ right) = chars "://" ++ right from rfl, ← List.append_assoc]
      exact same
    exact absurd (congrArg List.length (append_mark_inj first url.scheme_plain cut).2) (by simp [chars])
  have authority : (url.authority ++ url.tail).takeWhile (fun c => c ∉ ['/', '?', '#']) = url.authority := by
    rw [List.takeWhile_append_of_pos fun c there => decide_eq_true (authority_plain url c there)]
    cases tail : url.tail with
    | nil => exact List.append_nil _
    | cons mark more =>
      have starts := url.tail_starts mark (by rw [tail]; rfl)
      rw [List.takeWhile_cons_of_neg (by rw [decide_eq_true_eq, not_not]; exact starts), List.append_nil]
  rw [summarizeUrlForLog, slashes, same]
  simp only [authority, host_of_authority]
  rfl

theorem logs_hide :
    (∀ front name rest secret other : Text, sensitiveParameter name = true →
      (∀ c, front.getLast? = some c → structuredKeyCharacter c = false) → Secret secret → Secret other →
      (∀ c, rest.head? = some c → endsParameter c = true) →
      redactSensitiveLogText (front ++ name ++ ['='] ++ secret ++ rest) =
        redactSensitiveLogText (front ++ name ++ ['='] ++ other ++ rest)) ∧
    ∀ url other : LogUrl, url.scheme = other.scheme → url.host = other.host → url.text.length = other.text.length →
      summarizeUrlForLog url.text = summarizeUrlForLog other.text := by
  constructor
  · intro front name rest secret other sensitive boundary hides hides' stops
    have named : EndsNamed (front ++ name ++ ['=']) := ⟨front ++ name, rfl, sensitive_run sensitive boundary⟩
    have same : redactNamedParameters (redactHeaders (front ++ name ++ ['='] ++ (secret ++ rest))) =
        redactNamedParameters (redactHeaders (front ++ name ++ ['='] ++ (other ++ rest))) := by
      rcases redactHeaders_secret named stops with ⟨before, behind, last, ends, headers⟩ | ⟨result, headers⟩
      · obtain ⟨result, parameters⟩ := redactNamedParameters_secret last ends
        rw [headers _ hides, headers _ hides', parameters _ hides, parameters _ hides']
      · rw [headers _ hides, headers _ hides']
    simp only [redactSensitiveLogText, List.append_assoc _ secret, List.append_assoc _ other, same]
  · intro url other scheme host length
    rw [summarizeUrlForLog_text, summarizeUrlForLog_text, scheme, host, length]

theorem logs_hide_token :
    redactSensitiveLogText (chars "GET /sub?" ++ chars "Api-Token" ++ ['='] ++ chars "s3cret" ++ chars "&url=x") =
      redactSensitiveLogText (chars "GET /sub?" ++ chars "Api-Token" ++ ['='] ++ chars "0" ++ chars "&url=x") ∧
    summarizeUrlForLog (chars "https" ++ chars "://" ++ (chars "me:pw" ++ '@' :: chars "host.example" ++ chars "/a")) =
      summarizeUrlForLog (chars "https" ++ chars "://" ++ (chars "host.example" ++ chars "?k=12345")) := by
  refine ⟨logs_hide.1 _ _ _ _ _ (by decide) (by decide) ⟨by decide, by decide⟩ ⟨by decide, by decide⟩ (by decide), ?_⟩
  exact logs_hide.2
    ⟨chars "https", some (chars "me:pw"), chars "host.example", chars "/a", by decide, by decide, by decide, by decide⟩
    ⟨chars "https", none, chars "host.example", chars "?k=12345", by decide, by decide, by decide, by decide⟩ rfl rfl (by decide)

end Logs

end SubConverter.Utils.Redact
