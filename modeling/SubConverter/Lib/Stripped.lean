import Mathlib.Data.List.DropRight
import SubConverter.Lib.Delimited

set_option autoImplicit false

namespace SubConverter

section Ends

variable {α : Type} {drop : α → Bool}

theorem strip_front {front : List α} (blank : ∀ c ∈ front, drop c) (text : List α) : strip drop (front ++ text) = strip drop text := by
  rw [strip, List.dropWhile_append_of_pos blank, strip]

theorem strip_back {back : List α} (blank : ∀ c ∈ back, drop c) (text : List α) : strip drop (text ++ back) = strip drop text := by
  have behind : ∀ c ∈ back.reverse, drop c := fun c there => blank c (List.mem_reverse.mp there)
  rw [strip, strip, List.dropWhile_append]
  split
  next none =>
    rw [List.isEmpty_iff.mp none, List.dropWhile_eq_nil_iff.mpr blank]
  next =>
    rw [List.reverse_append, List.dropWhile_append_of_pos behind]

theorem strip_dropWhile (text : List α) : strip drop (text.dropWhile drop) = strip drop text := by
  rw [strip, List.dropWhile_idempotent, strip]

theorem strip_narrow {narrow wide : α → Bool} (within : ∀ c, narrow c → wide c) (text : List α) :
    strip wide (strip narrow text) = strip wide text := by
  obtain ⟨front, back, whole, first, last⟩ := strip_spec narrow text
  conv_rhs => rw [whole]
  rw [strip_back fun c there => within c (last c there), strip_front fun c there => within c (first c there)]

theorem head?_strip (text : List α) : (strip drop text).head? = (text.dropWhile drop).head? := by
  cases rest : text.dropWhile drop with
  | nil => simp [strip, rest]
  | cons head tail =>
    have kept : drop head = false := by
      have found := List.head?_dropWhile_not drop text
      simpa [rest] using found
    obtain ⟨more, same⟩ := strip_cons kept tail
    rw [← strip_dropWhile, rest, same]
    rfl

theorem strip_eq_nil_iff {text : List α} : strip drop text = [] ↔ ∀ c ∈ text, drop c := by
  rw [← List.head?_eq_none_iff, head?_strip, List.head?_eq_none_iff, List.dropWhile_eq_nil_iff]

theorem strip_marked {mark : α} (kept : drop mark = false) (left right : List α) :
    strip drop (left ++ mark :: right) = left.dropWhile drop ++ mark :: right.rdropWhile drop := by
  have opened : (left ++ mark :: right).dropWhile drop = left.dropWhile drop ++ mark :: right := by
    rw [List.dropWhile_append]
    split
    next none => simp [List.isEmpty_iff.mp none, kept]
    next => rfl
  have closed : (right.reverse ++ mark :: (left.dropWhile drop).reverse).dropWhile drop =
      right.reverse.dropWhile drop ++ mark :: (left.dropWhile drop).reverse := by
    rw [List.dropWhile_append]
    split
    next none => simp [List.isEmpty_iff.mp none, kept]
    next => rfl
  rw [strip, opened, List.reverse_append, List.reverse_cons, List.append_assoc, List.singleton_append, closed]
  simp [List.rdropWhile]

theorem length_strip_le (drop : α → Bool) (text : List α) : (strip drop text).length ≤ text.length := by
  obtain ⟨front, back, whole, -, -⟩ := strip_spec drop text
  conv_rhs => rw [whole]
  simp only [List.length_append]
  omega

theorem mem_of_mem_strip {c : α} {text : List α} (there : c ∈ strip drop text) : c ∈ text := by
  obtain ⟨front, back, whole, -, -⟩ := strip_spec drop text
  rw [whole]
  simp [there]

theorem mem_strip_iff {c : α} {text : List α} (kept : drop c = false) : c ∈ strip drop text ↔ c ∈ text := by
  refine ⟨mem_of_mem_strip, ?_⟩
  intro there
  obtain ⟨front, back, whole, first, last⟩ := strip_spec drop text
  rw [whole, List.mem_append, List.mem_append] at there
  rcases there with (before | inside) | behind
  · simp [first c before] at kept
  · exact inside
  · simp [last c behind] at kept

theorem rdropWhile_marked {mark : α} (kept : drop mark = false) (left right : List α) :
    (left ++ mark :: right).rdropWhile drop = left ++ mark :: right.rdropWhile drop := by
  induction right using List.reverseRecOn with
  | nil => rw [List.rdropWhile_concat_neg drop left mark (by simp [kept]), List.rdropWhile_nil]
  | append_singleton right c ih =>
    have whole : left ++ mark :: (right ++ [c]) = (left ++ mark :: right) ++ [c] := by simp
    rw [whole]
    by_cases blank : drop c
    · rw [List.rdropWhile_concat_pos drop _ c blank, List.rdropWhile_concat_pos drop _ c blank, ih]
    · rw [List.rdropWhile_concat_neg drop _ c blank, List.rdropWhile_concat_neg drop _ c blank, ← whole]

theorem rdropWhile_spec (drop : α → Bool) (text : List α) : ∃ back, text = text.rdropWhile drop ++ back ∧ ∀ c ∈ back, drop c := by
  refine ⟨text.rtakeWhile drop, ?_, fun c there => List.mem_rtakeWhile_imp there⟩
  rw [List.rdropWhile, List.rtakeWhile, ← List.reverse_append, List.takeWhile_append_dropWhile, List.reverse_reverse]

theorem cutAt_mark_iff [DecidableEq α] {mark : α} {text left right : List α} :
    cutAt [mark] text = some (left, right) ↔ text = left ++ mark :: right ∧ mark ∉ left := by
  rw [cutAt_eq_some_iff (by simp)]
  simp [List.singleton_infix_iff]

theorem cutAt_mark_none_iff [DecidableEq α] {mark : α} {text : List α} : cutAt [mark] text = none ↔ mark ∉ text := by
  rw [cutAt_eq_none_iff (by simp), List.singleton_infix_iff]

theorem cutAt_strip [DecidableEq α] {mark : α} (kept : drop mark = false) (text : List α) :
    cutAt [mark] (strip drop text) =
      (cutAt [mark] text).map fun parts => (parts.1.dropWhile drop, parts.2.rdropWhile drop) := by
  cases cut : cutAt [mark] text with
  | none =>
    rw [Option.map_none, cutAt_mark_none_iff]
    intro there
    obtain ⟨front, back, whole, -, -⟩ := strip_spec drop text
    exact cutAt_mark_none_iff.mp cut (by rw [whole]; simp [there])
  | some parts =>
    obtain ⟨left, right⟩ := parts
    obtain ⟨rfl, first⟩ := cutAt_mark_iff.mp cut
    rw [Option.map_some, cutAt_mark_iff, strip_marked kept]
    exact ⟨rfl, fun there => first ((List.dropWhile_sublist _).subset there)⟩

end Ends

section Parts

variable {α β : Type} [DecidableEq α]

theorem splitOn_back {mark : α} {back : List α} (absent : mark ∉ back) (text : List α) :
    ∃ parts last, text.splitOn mark = parts ++ [last] ∧ (text ++ back).splitOn mark = parts ++ [last ++ back] := by
  obtain ⟨parts, last, split⟩ := (List.eq_nil_or_concat (text.splitOn mark)).resolve_left (List.splitOn_ne_nil mark text)
  rw [List.concat_eq_append] at split
  refine ⟨parts, last, split, ?_⟩
  have whole : [mark].intercalate (parts ++ [last ++ back]) = text ++ back := by
    rw [intercalate_concat, ← List.append_assoc, ← intercalate_concat, ← split, List.intercalate_splitOn]
  rw [← whole, List.splitOn_intercalate mark _ (by simp)]
  intro part there
  rcases List.mem_append.mp there with before | last
  · exact not_mem_of_mem_splitOn (split ▸ List.mem_append_left _ before)
  · rw [List.mem_singleton.mp last, List.mem_append, not_or]
    exact ⟨not_mem_of_mem_splitOn (split ▸ List.mem_append_right _ List.mem_cons_self), absent⟩

theorem filterMap_splitOn_back {mark : α} {back : List α} {read : List α → Option β} (absent : mark ∉ back)
    (same : ∀ part, read (part ++ back) = read part) (text : List α) :
    ((text ++ back).splitOn mark).filterMap read = (text.splitOn mark).filterMap read := by
  obtain ⟨parts, last, split, longer⟩ := splitOn_back absent text
  rw [split, longer, List.filterMap_append, List.filterMap_append, List.filterMap_cons, List.filterMap_cons, same]

omit [DecidableEq α] in
theorem not_mem_intercalate {mark other : α} {parts : List (List α)} (different : other ≠ mark)
    (absent : ∀ part ∈ parts, other ∉ part) : other ∉ [mark].intercalate parts := by
  induction parts with
  | nil => simp
  | cons part rest ih =>
    rw [List.forall_mem_cons] at absent
    cases rest with
    | nil => simpa using absent.1
    | cons next more =>
      rw [List.intercalate_cons_of_ne_nil (by simp), List.mem_append, List.mem_append, List.mem_singleton, not_or, not_or]
      exact ⟨⟨absent.1, different⟩, ih absent.2⟩

theorem splitOn_join {mark : α} {parts : List (List α)} (present : parts ≠ []) :
    ([mark].intercalate parts).splitOn mark = parts.flatMap fun part => part.splitOn mark := by
  induction parts with
  | nil => exact absurd rfl present
  | cons part rest ih =>
    cases rest with
    | nil => simp
    | cons next more =>
      rw [List.intercalate_cons_of_ne_nil (by simp), List.append_assoc, List.singleton_append, List.splitOn_append_cons_self,
        ih (by simp), @List.flatMap_cons _ _ part]

omit [DecidableEq α] in
theorem map_join (f : α → β) (mark : α) (parts : List (List α)) :
    ([mark].intercalate parts).map f = [f mark].intercalate (parts.map (List.map f)) := by
  induction parts with
  | nil => rfl
  | cons part rest ih =>
    cases rest with
    | nil => simp
    | cons next more =>
      rw [List.intercalate_cons_of_ne_nil (by simp), List.map_append, List.map_append, ih, @List.map_cons _ _ _ part,
        List.intercalate_cons_of_ne_nil (by simp), List.map_singleton]

end Parts

section Readers

variable {α β : Type} {narrow wide : α → Option β} {entries : List α}

theorem filterMap_sublist_length (within : ∀ entry ∈ entries, (narrow entry).isSome → (wide entry).isSome) :
    (entries.filterMap narrow).length ≤ (entries.filterMap wide).length := by
  induction entries with
  | nil => exact le_rfl
  | cons entry rest ih =>
    have shorter := ih fun other there => within other (List.mem_cons_of_mem _ there)
    have here := within entry List.mem_cons_self
    cases few : narrow entry with
    | none =>
      rw [List.filterMap_cons_none few]
      cases many : wide entry with
      | none => rwa [List.filterMap_cons_none many]
      | some value =>
        rw [List.filterMap_cons_some many]
        exact shorter.trans (Nat.le_succ _)
    | some value =>
      obtain ⟨other, many⟩ := Option.isSome_iff_exists.mp (here (by simp [few]))
      rw [List.filterMap_cons_some few, List.filterMap_cons_some many]
      exact Nat.succ_le_succ shorter

theorem filterMap_eq_filterMap_iff (within : ∀ entry ∈ entries, (narrow entry).isSome → (wide entry).isSome) :
    entries.filterMap wide = entries.filterMap narrow ↔ ∀ entry ∈ entries, wide entry = narrow entry := by
  constructor
  · intro same
    induction entries with
    | nil => simp
    | cons entry rest ih =>
      have later : ∀ other ∈ rest, (narrow other).isSome → (wide other).isSome :=
        fun other there => within other (List.mem_cons_of_mem _ there)
      rw [List.forall_mem_cons]
      cases few : narrow entry with
      | none =>
        rw [List.filterMap_cons_none few] at same
        cases many : wide entry with
        | none =>
          rw [List.filterMap_cons_none many] at same
          exact ⟨rfl, ih later same⟩
        | some value =>
          have long := filterMap_sublist_length later
          rw [List.filterMap_cons_some many] at same
          rw [← same, List.length_cons] at long
          omega
      | some value =>
        obtain ⟨other, many⟩ := Option.isSome_iff_exists.mp (within entry List.mem_cons_self (by simp [few]))
        rw [List.filterMap_cons_some few, List.filterMap_cons_some many, List.cons.injEq] at same
        exact ⟨by rw [many, same.1], ih later same.2⟩
  · exact List.filterMap_congr

end Readers

end SubConverter
