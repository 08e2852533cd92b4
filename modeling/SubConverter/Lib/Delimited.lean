import Mathlib.Tactic

set_option autoImplicit false

namespace SubConverter

abbrev Text := List Char

-- One proof for every membership that is decided.
instance : LawfulBEq Text := inferInstance

-- The characters of a literal.
def chars (literal : String) : Text := literal.toList

section Marks

variable {α : Type} {mark : α} {first second x y : List α}

theorem append_mark_inj (left : mark ∉ first) (right : mark ∉ second) (same : first ++ mark :: x = second ++ mark :: y) :
    first = second ∧ x = y := by
  induction first generalizing second with
  | nil =>
    cases second with
    | nil => exact ⟨rfl, by simpa using same⟩
    | cons head tail =>
      simp only [List.nil_append, List.cons_append, List.cons.injEq] at same
      exact absurd (same.1 ▸ List.mem_cons_self) right
  | cons head tail ih =>
    cases second with
    | nil =>
      simp only [List.nil_append, List.cons_append, List.cons.injEq] at same
      exact absurd (same.1 ▸ List.mem_cons_self) left
    | cons other rest =>
      simp only [List.cons_append, List.cons.injEq] at same
      obtain ⟨rfl, same⟩ := same
      obtain ⟨rfl, rfl⟩ := ih (fun there => left (List.mem_cons_of_mem _ there))
        (fun there => right (List.mem_cons_of_mem _ there)) same
      exact ⟨rfl, rfl⟩

theorem mark_append_inj (left : mark ∉ x) (right : mark ∉ y) (same : first ++ mark :: x = second ++ mark :: y) :
    first = second ∧ x = y := by
  have backwards : x.reverse ++ mark :: first.reverse = y.reverse ++ mark :: second.reverse := by
    simpa using congrArg List.reverse same
  obtain ⟨tails, heads⟩ := append_mark_inj (by simpa using left) (by simpa using right) backwards
  exact ⟨List.reverse_injective heads, List.reverse_injective tails⟩

end Marks

def decimal (n : Nat) : Text := Nat.toDigits 10 n

def hexDigits : Text := chars "0123456789abcdef"

theorem decimal_injective : Function.Injective decimal := by
  intro m n same
  have values := congrArg (fun digits => Nat.ofDigitChars 10 digits 0) same
  simpa [decimal, Nat.ofDigitChars_ten_toDigits] using values

theorem not_mem_decimal {n : Nat} {mark : Char} (other : mark.isDigit = false) : mark ∉ decimal n := by
  intro there
  have digit := Nat.isDigit_of_mem_toDigits (by decide) (by decide) there
  rw [other] at digit
  cases digit

def field (text : Text) : Text := decimal text.length ++ ':' :: text

theorem field_append_inj {first second x y : Text} (same : field first ++ x = field second ++ y) :
    first = second ∧ x = y := by
  simp only [field, List.append_assoc, List.cons_append] at same
  obtain ⟨lengths, texts⟩ := append_mark_inj (not_mem_decimal (by decide)) (not_mem_decimal (by decide)) same
  exact List.append_inj texts (decimal_injective lengths)

def lines (texts : List Text) : Text := texts.flatMap fun text => '\n' :: text

@[simp] theorem lines_cons (text : Text) (texts : List Text) : lines (text :: texts) = '\n' :: (text ++ lines texts) := by
  simp [lines]

theorem lines_injective {first second : List Text} (left : ∀ text ∈ first, '\n' ∉ text)
    (right : ∀ text ∈ second, '\n' ∉ text) (same : lines first = lines second) : first = second := by
  induction first generalizing second with
  | nil =>
    cases second with
    | nil => rfl
    | cons text texts => simp [lines] at same
  | cons head tail ih =>
    cases second with
    | nil => simp [lines] at same
    | cons other rest =>
      simp only [lines_cons, List.cons.injEq, true_and] at same
      have leftHead := left head List.mem_cons_self
      have rightHead := right other List.mem_cons_self
      cases tail with
      | nil =>
        cases rest with
        | nil => simpa [lines] using same
        | cons next more =>
          simp only [lines, List.flatMap_nil, List.append_nil] at same
          simp [same] at leftHead
      | cons next more =>
        cases rest with
        | nil =>
          simp only [lines, List.flatMap_nil, List.append_nil] at same
          simp [← same] at rightHead
        | cons next' more' =>
          obtain ⟨rfl, after⟩ := append_mark_inj leftHead rightHead (by simpa using same)
          have tails := ih (fun text there => left text (List.mem_cons_of_mem _ there))
            (fun text there => right text (List.mem_cons_of_mem _ there)) (by simpa using after)
          rw [tails]

section Labels

variable {label front behind x y : Text} {rest others : List Text}

theorem lines_singleton (text : Text) : lines [text] = '\n' :: text := by
  simp [lines]

theorem append_lines_concat (texts : List Text) (last : Text) :
    front ++ lines (texts ++ [last]) = front ++ lines texts ++ '\n' :: last := by
  simp [lines]

theorem labelled_line_inj (left : '\n' ∉ label ++ x) (right : '\n' ∉ label ++ y) (unbroken : ∀ text ∈ rest, '\n' ∉ text)
    (unbrokenOthers : ∀ text ∈ others, '\n' ∉ text) (unlabelled : ∀ text ∈ rest, ¬ label <+: text)
    (unlabelledOthers : ∀ text ∈ others, ¬ label <+: text)
    (same : front ++ lines ((label ++ x) :: rest) = behind ++ lines ((label ++ y) :: others)) :
    front = behind ∧ x = y ∧ rest = others := by
  induction rest using List.reverseRecOn generalizing others with
  | nil =>
    rw [lines_singleton] at same
    cases others using List.reverseRecOn with
    | nil =>
      rw [lines_singleton] at same
      obtain ⟨rfl, equal⟩ := mark_append_inj left right same
      exact ⟨rfl, List.append_cancel_left equal, rfl⟩
    | append_singleton more last =>
      rw [← @List.cons_append _ (label ++ y), append_lines_concat] at same
      obtain ⟨-, equal⟩ := mark_append_inj left (unbrokenOthers last (by simp)) same
      exact absurd ⟨x, equal⟩ (unlabelledOthers last (by simp))
  | append_singleton init last ih =>
    rw [← @List.cons_append _ (label ++ x), append_lines_concat] at same
    cases others using List.reverseRecOn with
    | nil =>
      rw [lines_singleton] at same
      obtain ⟨-, equal⟩ := mark_append_inj (unbroken last (by simp)) right same
      exact absurd ⟨y, equal.symm⟩ (unlabelled last (by simp))
    | append_singleton more final =>
      rw [← @List.cons_append _ (label ++ y), append_lines_concat] at same
      simp only [List.forall_mem_append, List.forall_mem_singleton] at unbroken unbrokenOthers unlabelled unlabelledOthers
      obtain ⟨before, rfl⟩ := mark_append_inj unbroken.2 unbrokenOthers.2 same
      obtain ⟨rfl, rfl, rfl⟩ := ih unbroken.1 unbrokenOthers.1 unlabelled.1 unlabelledOthers.1 before
      exact ⟨rfl, rfl, rfl⟩

end Labels

section Records

def record (label value : Text) : Text := label ++ ':' :: (field value ++ ['\n'])

theorem record_append_inj {first second u v x y : Text} (left : ':' ∉ first) (right : ':' ∉ second)
    (same : record first u ++ x = record second v ++ y) : first = second ∧ u = v ∧ x = y := by
  simp only [record, List.append_assoc, List.cons_append] at same
  obtain ⟨labels, rest⟩ := append_mark_inj left right same
  obtain ⟨values, tails⟩ := field_append_inj rest
  exact ⟨labels, values, by simpa using tails⟩

def records (entries : List (Text × Text)) : Text := entries.flatMap fun entry => record entry.1 entry.2

@[simp] theorem records_nil : records [] = [] := rfl

@[simp] theorem records_cons (entry : Text × Text) (entries : List (Text × Text)) :
    records (entry :: entries) = record entry.1 entry.2 ++ records entries := by
  simp [records]

@[simp] theorem records_append (first second : List (Text × Text)) : records (first ++ second) = records first ++ records second := by
  simp [records]

theorem record_ne_nil (label value : Text) : record label value ≠ [] := by
  simp [record]

theorem records_injective {first second : List (Text × Text)} (left : ∀ entry ∈ first, ':' ∉ entry.1)
    (right : ∀ entry ∈ second, ':' ∉ entry.1) (same : records first = records second) : first = second := by
  induction first generalizing second with
  | nil =>
    cases second with
    | nil => rfl
    | cons other rest =>
      simp only [records_nil, records_cons] at same
      exact absurd (List.append_eq_nil_iff.mp same.symm).1 (record_ne_nil _ _)
  | cons entry more ih =>
    cases second with
    | nil =>
      simp only [records_nil, records_cons] at same
      exact absurd (List.append_eq_nil_iff.mp same).1 (record_ne_nil _ _)
    | cons other rest =>
      simp only [List.forall_mem_cons] at left right
      simp only [records_cons] at same
      obtain ⟨labels, values, tails⟩ := record_append_inj left.1 right.1 same
      rw [ih left.2 right.2 tails, Prod.ext labels values]

end Records

section Stripping

variable {α : Type} {wide narrow : α → Bool} {text : List α}

def strip (drop : α → Bool) (text : List α) : List α := ((text.dropWhile drop).reverse.dropWhile drop).reverse

theorem strip_spec (drop : α → Bool) (text : List α) :
    ∃ front back, text = front ++ strip drop text ++ back ∧ (∀ c ∈ front, drop c) ∧ ∀ c ∈ back, drop c := by
  refine ⟨text.takeWhile drop, ((text.dropWhile drop).reverse.takeWhile drop).reverse, ?_, ?_, ?_⟩
  · have inner : text.dropWhile drop = strip drop text ++ ((text.dropWhile drop).reverse.takeWhile drop).reverse := by
      rw [strip, ← List.reverse_append, List.takeWhile_append_dropWhile, List.reverse_reverse]
    rw [List.append_assoc, ← inner, List.takeWhile_append_dropWhile]
  · exact List.all_eq_true.mp List.all_takeWhile
  · intro c there
    exact List.all_eq_true.mp List.all_takeWhile c (List.mem_reverse.mp there)

theorem strip_append {front middle back : List α} (first : ∀ c ∈ front, wide c) (last : ∀ c ∈ back, wide c)
    (kept : ∀ c ∈ middle, wide c = false) (present : middle ≠ []) : strip wide (front ++ middle ++ back) = middle := by
  have clean : ∀ {rest : List α}, (∀ c ∈ rest, wide c = false) → rest ≠ [] → rest.dropWhile wide = rest := by
    intro rest none present
    cases rest with
    | nil => exact absurd rfl present
    | cons head tail => simp [none head List.mem_cons_self]
  have opened : (front ++ middle ++ back).dropWhile wide = middle ++ back := by
    rw [List.append_assoc, List.dropWhile_append_of_pos first]
    cases middle with
    | nil => exact absurd rfl present
    | cons head tail => simp [kept head List.mem_cons_self]
  rw [strip, opened, List.reverse_append, List.dropWhile_append_of_pos fun c there => last c (List.mem_reverse.mp there),
    clean (fun c there => kept c (List.mem_reverse.mp there)) (by simpa using present), List.reverse_reverse]

theorem strip_wide (within : ∀ c, narrow c → wide c) (kept : ∀ c ∈ strip narrow text, wide c = false)
    (present : strip narrow text ≠ []) : strip wide text = strip narrow text := by
  obtain ⟨front, back, whole, first, last⟩ := strip_spec narrow text
  conv_lhs => rw [whole]
  exact strip_append (fun c there => within c (first c there)) (fun c there => within c (last c there)) kept present

theorem strip_ends (drop : α → Bool) (text : List α) :
    (∀ c ∈ (strip drop text).head?, drop c = false) ∧ ∀ c ∈ (strip drop text).getLast?, drop c = false := by
  have kept : ∀ (rest : List α), ∀ c ∈ (rest.dropWhile drop).head?, drop c = false := by
    intro rest c there
    have found := List.head?_dropWhile_not drop rest
    rw [Option.mem_def.mp there] at found
    simpa using found
  constructor
  · intro c there
    apply kept text
    have inner : text.dropWhile drop = strip drop text ++ ((text.dropWhile drop).reverse.takeWhile drop).reverse := by
      rw [strip, ← List.reverse_append, List.takeWhile_append_dropWhile, List.reverse_reverse]
    rw [inner, List.head?_append, Option.mem_def.mp there]
    rfl
  · intro c there
    rw [strip, List.getLast?_reverse] at there
    exact kept _ c there

theorem strip_eq_self {text : List α} {drop : α → Bool} (first : ∀ c ∈ text.head?, drop c = false)
    (last : ∀ c ∈ text.getLast?, drop c = false) : strip drop text = text := by
  have same : ∀ rest : List α, (∀ c ∈ rest.head?, drop c = false) → rest.dropWhile drop = rest := by
    intro rest head
    cases rest with
    | nil => rfl
    | cons c tail => simp [head c rfl]
  rw [strip, same text first, same text.reverse (by simpa using last), List.reverse_reverse]

theorem strip_cons {drop : α → Bool} {first : α} (kept : drop first = false) (rest : List α) :
    ∃ tail, strip drop (first :: rest) = first :: tail := by
  obtain ⟨front, back, whole, dropped, behind⟩ := strip_spec drop (first :: rest)
  cases front with
  | cons c more =>
    obtain rfl := (List.cons.inj whole).1
    simp [kept] at dropped
  | nil =>
    cases left : strip drop (first :: rest) with
    | cons c tail =>
      rw [left] at whole
      obtain rfl := (List.cons.inj whole).1
      exact ⟨tail, rfl⟩
    | nil =>
      rw [left, List.nil_append, List.nil_append] at whole
      simp [← whole, kept] at behind

theorem strip_strip (drop : α → Bool) (text : List α) : strip drop (strip drop text) = strip drop text :=
  strip_eq_self (strip_ends drop text).1 (strip_ends drop text).2

end Stripping

section Cutting

variable {α : Type} [DecidableEq α]

def afterLast (mark : α) : List α → Option (List α)
  | [] => none
  | head :: rest => (afterLast mark rest).or (if head = mark then some rest else none)

theorem afterLast_eq_none {mark : α} {text : List α} (absent : mark ∉ text) : afterLast mark text = none := by
  induction text with
  | nil => rfl
  | cons head rest ih =>
    simp only [List.mem_cons, not_or] at absent
    simp [afterLast, ih absent.2, Ne.symm absent.1]

theorem afterLast_append {mark : α} {tail : List α} (absent : mark ∉ tail) (before : List α) :
    afterLast mark (before ++ mark :: tail) = some tail := by
  induction before with
  | nil => simp [afterLast, afterLast_eq_none absent]
  | cons head rest ih => simp [afterLast, ih]

def cutAt (mark : List α) : List α → Option (List α × List α)
  | [] => if mark = [] then some ([], []) else none
  | head :: rest =>
    if mark.isPrefixOf (head :: rest) then some ([], (head :: rest).drop mark.length)
    else (cutAt mark rest).map fun parts => (head :: parts.1, parts.2)

theorem eq_of_cutAt {mark text left right : List α} (cut : cutAt mark text = some (left, right)) :
    text = left ++ mark ++ right := by
  induction text generalizing left with
  | nil =>
    rw [cutAt, Option.ite_none_right_eq_some] at cut
    obtain ⟨rfl, same⟩ := cut
    simp_all
  | cons head rest ih =>
    rw [cutAt] at cut
    by_cases starts : mark.isPrefixOf (head :: rest)
    · obtain ⟨tail, whole⟩ := List.isPrefixOf_iff_prefix.mp starts
      rw [if_pos starts, ← whole, List.drop_left] at cut
      simp only [Option.some.injEq, Prod.mk.injEq] at cut
      simp [← whole, ← cut.1, ← cut.2]
    · simp only [if_neg starts, Option.map_eq_some_iff, Prod.mk.injEq] at cut
      obtain ⟨parts, inner, rfl, rfl⟩ := cut
      simp [ih inner]

theorem cutAt_eq_some_iff {mark text left right : List α} (present : mark ≠ []) :
    cutAt mark text = some (left, right) ↔ text = left ++ mark ++ right ∧ ¬mark <:+: left ++ mark.dropLast := by
  have shorter : ¬mark <:+: mark.dropLast := by
    intro inside
    have long := inside.length_le
    have positive := List.length_pos_iff.mpr present
    rw [List.length_dropLast] at long
    omega
  have early : ∀ x y : List α, (x ++ mark.dropLast) <+: (x ++ mark ++ y) := by
    intro x y
    rw [List.append_assoc, List.prefix_append_right_inj]
    exact (List.dropLast_prefix mark).trans (List.prefix_append mark y)
  induction text generalizing left with
  | nil => simp [cutAt, present]
  | cons head rest ih =>
    by_cases starts : mark.isPrefixOf (head :: rest)
    · have begins := List.isPrefixOf_iff_prefix.mp starts
      obtain ⟨tail, whole⟩ := begins
      have dropped : (head :: rest).drop mark.length = tail := by rw [← whole, List.drop_left]
      rw [cutAt, if_pos starts, dropped, ← whole, Option.some.injEq, Prod.mk.injEq]
      constructor
      · rintro ⟨rfl, rfl⟩
        exact ⟨rfl, by simpa using shorter⟩
      · rintro ⟨same, first⟩
        cases left with
        | nil => simpa using same
        | cons other more =>
          refine absurd ?_ first
          have inside : mark <+: other :: more ++ mark.dropLast := by
            refine List.prefix_of_prefix_length_le (List.prefix_append mark tail) ?_ ?_
            · rw [same]
              exact early _ _
            · simp only [List.length_append, List.length_cons, List.length_dropLast]
              omega
          exact inside.isInfix
    · have later : ¬mark <+: head :: rest := fun begins => starts (List.isPrefixOf_iff_prefix.mpr begins)
      rw [cutAt, if_neg starts, Option.map_eq_some_iff]
      simp only [Prod.mk.injEq, Prod.exists]
      constructor
      · rintro ⟨inner, outer, cut, rfl, rfl⟩
        obtain ⟨rfl, first⟩ := ih.mp cut
        refine ⟨by simp, ?_⟩
        rw [List.cons_append, List.infix_cons_iff, not_or]
        refine ⟨fun begins => later (begins.trans ?_), first⟩
        rw [List.cons_prefix_cons]
        exact ⟨rfl, early _ _⟩
      · rintro ⟨same, first⟩
        cases left with
        | nil => exact absurd (by rw [same]; simp) later
        | cons other more =>
          simp only [List.cons_append, List.cons.injEq] at same first
          rw [List.infix_cons_iff, not_or] at first
          exact ⟨more, right, ih.mpr ⟨same.2, first.2⟩, by simp [same.1], rfl⟩

theorem cutAt_eq_none_iff {mark text : List α} (present : mark ≠ []) : cutAt mark text = none ↔ ¬mark <:+: text := by
  constructor
  · intro cut inside
    induction text with
    | nil => exact present (List.infix_nil.mp inside)
    | cons head rest ih =>
      by_cases starts : mark.isPrefixOf (head :: rest)
      · rw [cutAt, if_pos starts] at cut
        cases cut
      · rw [cutAt, if_neg starts, Option.map_eq_none_iff] at cut
        rcases List.infix_cons_iff.mp inside with begins | later
        · exact starts (List.isPrefixOf_iff_prefix.mpr begins)
        · exact ih cut later
  · intro absent
    by_contra cut
    obtain ⟨⟨left, right⟩, cut⟩ := Option.ne_none_iff_exists'.mp cut
    exact absent ⟨left, right, (eq_of_cutAt cut).symm⟩

theorem cutAt_append {mark left : List α} {first : α} {rest : List α} (right : List α) (starts : mark = first :: rest)
    (absent : first ∉ left) : cutAt mark (left ++ mark ++ right) = some (left, right) := by
  induction left with
  | nil =>
    have here : mark.isPrefixOf (mark ++ right) = true := List.isPrefixOf_iff_prefix.mpr ⟨right, rfl⟩
    subst starts
    simp only [List.nil_append, List.cons_append] at here ⊢
    rw [cutAt, if_pos here]
    simp
  | cons head more ih =>
    simp only [List.mem_cons, not_or] at absent
    have later : mark.isPrefixOf (head :: (more ++ mark ++ right)) = false := by
      simp [starts, List.isPrefixOf, absent.1]
    simp only [List.cons_append]
    rw [cutAt, later, ih absent.2]
    rfl

theorem cutAt_eq_none {mark text : List α} {first : α} {rest : List α} (starts : mark = first :: rest)
    (absent : first ∉ text) : cutAt mark text = none := by
  subst starts
  induction text with
  | nil => simp [cutAt]
  | cons head more ih =>
    simp only [List.mem_cons, not_or] at absent
    simp [cutAt, List.isPrefixOf, absent.1, ih absent.2]

theorem exists_mem_splitOn {mark c : α} {text : List α} (there : c ∈ text) (other : c ≠ mark) :
    ∃ part ∈ text.splitOn mark, c ∈ part := by
  induction text with
  | nil => cases there
  | cons head rest ih =>
    rw [List.splitOn_cons_eq_if_modifyHead]
    obtain ⟨first, more, parts⟩ := List.exists_cons_of_ne_nil (List.splitOn_ne_nil mark rest)
    rw [parts] at ih ⊢
    simp only [List.mem_cons, exists_eq_or_imp] at there ih
    by_cases same : head = mark
    · subst same
      simp [ih (there.resolve_left other)]
    · simp only [beq_eq_false_iff_ne.mpr same, Bool.false_eq_true, if_false, List.modifyHead_cons, List.mem_cons,
        exists_eq_or_imp]
      rcases there with rfl | there
      · exact .inl (.inl rfl)
      · exact (ih there).imp .inr id

theorem not_mem_of_mem_splitOn {mark : α} {text part : List α} (there : part ∈ text.splitOn mark) : mark ∉ part := by
  induction text generalizing part with
  | nil =>
    simp only [List.splitOn_nil, List.mem_singleton] at there
    simp [there]
  | cons head rest ih =>
    rw [List.splitOn_cons_eq_if_modifyHead] at there
    obtain ⟨first, more, parts⟩ := List.exists_cons_of_ne_nil (List.splitOn_ne_nil mark rest)
    rw [parts] at ih there
    by_cases same : head = mark
    · simp only [same, beq_self_eq_true, if_true, List.mem_cons] at there
      rcases there with rfl | there
      · simp
      · exact ih (List.mem_cons.mpr there)
    · simp only [beq_eq_false_iff_ne.mpr same, Bool.false_eq_true, if_false, List.modifyHead_cons,
        List.mem_cons] at there
      rcases there with rfl | there
      · simp only [List.mem_cons, not_or]
        exact ⟨Ne.symm same, ih List.mem_cons_self⟩
      · exact ih (List.mem_cons_of_mem _ there)

def marked (mark : α) (parts : List (List α)) : List α := parts.flatMap fun part => part ++ [mark]

omit [DecidableEq α] in
@[simp] theorem marked_cons (mark : α) (part : List α) (parts : List (List α)) :
    marked mark (part :: parts) = part ++ mark :: marked mark parts := by
  simp [marked]

omit [DecidableEq α] in
theorem intercalate_append (mark : α) (parts : List (List α)) {rest : List (List α)} (present : rest ≠ []) :
    [mark].intercalate (parts ++ rest) = marked mark parts ++ [mark].intercalate rest := by
  induction parts with
  | nil => simp [marked]
  | cons part more ih =>
    rw [List.cons_append, List.intercalate_cons_of_ne_nil (by simp [present]), ih]
    simp

omit [DecidableEq α] in
theorem intercalate_concat (mark : α) (parts : List (List α)) (tail : List α) :
    [mark].intercalate (parts ++ [tail]) = marked mark parts ++ tail := by
  rw [intercalate_append mark parts (by simp), List.intercalate_singleton]

omit [DecidableEq α] in
theorem length_flatten_le (mark : α) (parts : List (List α)) : parts.flatten.length ≤ (marked mark parts).length := by
  induction parts with
  | nil => simp
  | cons part rest ih =>
    simp only [List.flatten_cons, marked_cons, List.length_append, List.length_cons]
    omega

theorem marked_splitOn (mark : α) (text : List α) : marked mark (text.splitOn mark) = text ++ [mark] := by
  obtain ⟨before, tail, parts⟩ := (List.eq_nil_or_concat (text.splitOn mark)).resolve_left (List.splitOn_ne_nil mark text)
  have whole : marked mark before ++ tail = text := by
    rw [← intercalate_concat, ← List.concat_eq_append, ← parts, List.intercalate_splitOn]
  rw [parts, List.concat_eq_append, ← whole]
  simp [marked]

theorem length_splitOn_le (mark : α) (text : List α) : (text.splitOn mark).length ≤ text.length + 1 := by
  have counted : ∀ parts : List (List α), parts.length ≤ (marked mark parts).length := by
    intro parts
    induction parts with
    | nil => exact le_rfl
    | cons part rest ih =>
      rw [marked_cons, List.length_append, List.length_cons, List.length_cons]
      omega
  have whole := counted (text.splitOn mark)
  rwa [marked_splitOn, List.length_append, List.length_singleton] at whole

theorem mem_of_mem_splitOn {mark c : α} {text part : List α} (there : part ∈ text.splitOn mark) (inside : c ∈ part) :
    c ∈ text := by
  have whole : c ∈ marked mark (text.splitOn mark) → c ≠ mark → c ∈ text := by
    rw [marked_splitOn]
    intro there other
    simpa [other] using there
  refine whole ?_ fun same => not_mem_of_mem_splitOn there (same ▸ inside)
  rw [marked, List.mem_flatMap]
  exact ⟨part, there, List.mem_append_left _ inside⟩

omit [DecidableEq α] in
theorem mark_marked_ends (mark : α) (parts : List (List α)) : ∃ before, mark :: marked mark parts = before ++ [mark] := by
  rcases List.eq_nil_or_concat parts with rfl | ⟨front, last, rfl⟩
  · exact ⟨[], rfl⟩
  · exact ⟨mark :: marked mark front ++ last, by simp [marked]⟩

end Cutting

end SubConverter
