import SubConverter.Lib.Delimited

set_option autoImplicit false

namespace SubConverter.Insertion

/-! Parts put in front of the first place where a key stands. -/

section Insertion

variable {α : Type} [DecidableEq α] {ending : α} {key header part text front back : List α} {parts : List (List α)}

def insertBefore (key part text : List α) : List α :=
  match cutAt key text with
  | some (front, back) => front ++ part ++ key ++ back
  | none => text

def insertAll (key : List α) (parts : List (List α)) (text : List α) : List α :=
  parts.foldl (fun text part => insertBefore key part text) text

def Ended (ending : α) (text : List α) : Prop := text = [] ∨ ∃ line, text = line ++ [ending]

structure Header (ending : α) (key header : List α) : Prop where
  ended : Ended ending header
  absent : ¬ key <:+: header
  longer : ¬ header <+: key
  cut : ∀ tail ∈ key.tail.tails, tail ≠ [] → ¬ tail <+: header

structure Headed (ending : α) (key part : List α) : Prop where
  header : ∃ header body, part = header ++ body ∧ Header ending key header
  ended : Ended ending part

omit [DecidableEq α] in
theorem Ended.append (first : Ended ending front) (second : Ended ending back) : Ended ending (front ++ back) := by
  rcases second with rfl | ⟨line, rfl⟩
  · rwa [List.append_nil]
  · exact .inr ⟨front ++ line, (List.append_assoc _ _ _).symm⟩

omit [DecidableEq α] in
theorem infix_append_ended (single : ending ∉ key) (ended : Ended ending front) :
    key <:+: front ++ back ↔ key <:+: front ∨ key <:+: back := by
  rw [List.infix_append_iff_ne_nil]
  constructor
  · rintro (before | behind | ⟨head, tail, present, -, rfl, ends, -⟩)
    · exact .inl before
    · exact .inr behind
    · rcases ended with rfl | ⟨line, rfl⟩
      · exact absurd (List.suffix_nil.mp ends) present
      · obtain ⟨rest, last, shape⟩ := (List.eq_nil_or_concat head).resolve_left present
        obtain ⟨more, whole⟩ := ends
        rw [List.concat_eq_append] at shape
        rw [shape, ← List.append_assoc] at whole
        obtain ⟨-, same⟩ := List.append_inj' whole rfl
        rw [shape, (List.cons.inj same).1] at single
        exact absurd (by simp) single
  · rintro (before | behind)
    · exact .inl before
    · exact .inr (.inl behind)

theorem cutAt_append_ended (present : key ≠ []) (single : ending ∉ key) (ended : Ended ending front) (absent : ¬ key <:+: front)
    (text : List α) : cutAt key (front ++ text) = (cutAt key text).map fun parts => (front ++ parts.1, parts.2) := by
  cases cut : cutAt key text with
  | none =>
    rw [Option.map_none, cutAt_eq_none_iff present, infix_append_ended single ended, not_or]
    exact ⟨absent, (cutAt_eq_none_iff present).mp cut⟩
  | some parts =>
    obtain ⟨rfl, first⟩ := (cutAt_eq_some_iff present).mp cut
    rw [Option.map_some, cutAt_eq_some_iff present]
    refine ⟨by simp, ?_⟩
    rw [List.append_assoc, infix_append_ended single ended, not_or]
    exact ⟨absent, first⟩

theorem insertBefore_append (present : key ≠ []) (single : ending ∉ key) (ended : Ended ending front) (absent : ¬ key <:+: front)
    (part text : List α) : insertBefore key part (front ++ text) = front ++ insertBefore key part text := by
  rw [insertBefore, cutAt_append_ended present single ended absent, insertBefore]
  cases cutAt key text with
  | none => rfl
  | some parts => simp

theorem insertAll_append (present : key ≠ []) (single : ending ∉ key) (ended : Ended ending front) (absent : ¬ key <:+: front)
    (parts : List (List α)) (text : List α) : insertAll key parts (front ++ text) = front ++ insertAll key parts text := by
  induction parts generalizing text with
  | nil => rfl
  | cons part rest ih =>
    rw [insertAll, List.foldl_cons, insertBefore_append present single ended absent]
    exact ih _

omit [DecidableEq α] in
theorem Header.absent_append (safe : Header ending key header) (first : ¬ key <:+: text) : ¬ key <:+: text ++ header := by
  rw [List.infix_append_iff_ne_nil]
  rintro (before | behind | ⟨head, tail, left, right, whole, -, begins⟩)
  · exact first before
  · exact safe.absent behind
  · obtain ⟨c, more, rfl⟩ := List.exists_cons_of_ne_nil left
    refine safe.cut tail ((List.mem_tails _ _).mpr ?_) right begins
    rw [whole]
    exact List.suffix_append more tail

omit [DecidableEq α] in
theorem Header.append_ended (safe : Header ending key header) (text : List α) : Ended ending (text ++ header) := by
  rcases safe.ended with rfl | ⟨line, rfl⟩
  · exact absurd List.nil_prefix safe.longer
  · exact .inr ⟨text ++ line, (List.append_assoc _ _ _).symm⟩

omit [DecidableEq α] in
theorem Header.prefix_ne (safe : Header ending key header) (x y : List α) : header ++ x ≠ key ++ y := by
  intro same
  have left : header <+: key ++ y := ⟨x, same⟩
  rcases List.prefix_or_prefix_of_prefix left (List.prefix_append key y) with inside | around
  · exact safe.longer inside
  · exact safe.absent around.isInfix

theorem insertAll_eq_iff (present : key ≠ []) (single : ending ∉ key) (safe : ∀ part ∈ parts, Headed ending key part)
    (ended : Ended ending front) :
    insertAll key parts (front ++ key ++ back) = front ++ parts.flatten ++ key ++ back ↔
      parts = [] ∨ ¬ key <:+: front ++ parts.dropLast.flatten := by
  induction parts generalizing front with
  | nil => simp [insertAll]
  | cons part rest ih =>
    obtain ⟨⟨⟨header, body, shape, heads⟩, whole⟩, later⟩ := List.forall_mem_cons.mp safe
    rw [insertAll, List.foldl_cons, ← insertAll]
    by_cases taken : key <:+: front
    · -- The part lands in the middle of an earlier line, and its header stays there.
      obtain ⟨before, after, cut⟩ : ∃ before after, cutAt key front = some (before, after) := by
        cases cut : cutAt key front with
        | none => exact absurd taken ((cutAt_eq_none_iff present).mp cut)
        | some parts => exact ⟨parts.1, parts.2, rfl⟩
      obtain ⟨rfl, first⟩ := (cutAt_eq_some_iff present).mp cut
      have place : cutAt key (before ++ key ++ after ++ key ++ back) = some (before, after ++ key ++ back) :=
        (cutAt_eq_some_iff present).mpr ⟨by simp, first⟩
      have early : ¬ key <:+: before := fun inside => first (inside.trans (List.prefix_append before _).isInfix)
      have moved : insertBefore key part (before ++ key ++ after ++ key ++ back) =
          (before ++ header) ++ (body ++ key ++ (after ++ key ++ back)) := by
        rw [insertBefore, place, shape]
        simp
      rw [moved, insertAll_append present single (heads.append_ended before) (heads.absent_append early)]
      constructor
      · intro same
        simp only [List.append_assoc, List.append_cancel_left_eq] at same
        exact absurd same (heads.prefix_ne _ _)
      · rintro (none | clean)
        · cases none
        · exact absurd (taken.trans (List.prefix_append _ _).isInfix) clean
    · have alone : ¬ key <:+: [] ++ key.dropLast := by
        intro inside
        have long := inside.length_le
        have positive := List.length_pos_iff.mpr present
        rw [List.nil_append, List.length_dropLast] at long
        omega
      have start : cutAt key (key ++ back) = some ([], back) := (cutAt_eq_some_iff present).mpr ⟨by simp, alone⟩
      have moved : insertBefore key part (front ++ key ++ back) = front ++ part ++ key ++ back := by
        rw [insertBefore, List.append_assoc, cutAt_append_ended present single ended taken, start]
        simp
      rw [moved, List.flatten_cons, ← List.append_assoc front, ih later (ended.append whole)]
      cases rest with
      | nil => simp [taken]
      | cons next more => simp

end Insertion

end SubConverter.Insertion
