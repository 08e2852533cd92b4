import SubConverter.Lib.Delimited

set_option autoImplicit false

namespace SubConverter.Places

/-! Searches in a text that start at a place and find a place. -/

variable {α : Type} {text : List α} {start : Nat}

section Searches

def findFrom (test : List α → Bool) (text : List α) (start : Nat) : Option Nat :=
  (List.range' start (text.length - start)).find? fun place => test (text.drop place)

def FirstFrom (Holds : Nat → Prop) (start : Nat) : Option Nat → Prop
  | none => ∀ place, start ≤ place → ¬Holds place
  | some found => start ≤ found ∧ Holds found ∧ ∀ place, start ≤ place → place < found → ¬Holds place

theorem FirstFrom.unique {Holds : Nat → Prop} {found other : Option Nat} (first : FirstFrom Holds start found)
    (second : FirstFrom Holds start other) : found = other := by
  cases found with
  | none =>
    cases other with
    | none => rfl
    | some place => exact absurd second.2.1 (first place second.1)
  | some place =>
    cases other with
    | none => exact absurd first.2.1 (second place first.1)
    | some place' =>
      have less := first.2.2 place' second.1
      have more := second.2.2 place first.1
      have same : place = place' := by
        rcases Nat.lt_trichotomy place place' with before | same | behind
        · exact absurd first.2.1 (more before)
        · exact same
        · exact absurd second.2.1 (less behind)
      rw [same]

theorem FirstFrom.earlier {Holds : Nat → Prop} {later : Nat} {found : Option Nat} (first : FirstFrom Holds later found)
    (order : start ≤ later) (nothing : ∀ place, start ≤ place → place < later → ¬Holds place) : FirstFrom Holds start found := by
  have before {place : Nat} (behind : start ≤ place) (fails : later ≤ place → ¬Holds place) : ¬Holds place := by
    by_cases early : place < later
    · exact nothing place behind early
    · exact fails (Nat.le_of_not_lt early)
  cases found with
  | none => exact fun place behind => before behind (first place)
  | some found => exact ⟨order.trans first.1, first.2.1, fun place behind less => before behind fun after => first.2.2 place after less⟩

theorem findFrom_first (test : List α → Bool) (text : List α) (start : Nat) :
    FirstFrom (fun place => place < text.length ∧ test (text.drop place) = true) start (findFrom test text start) := by
  cases found : findFrom test text start with
  | none =>
    rw [findFrom, List.find?_range'_eq_none] at found
    intro place behind holds
    have fails := found place behind (by omega)
    rw [holds.2] at fails
    cases fails
  | some place =>
    rw [findFrom, List.find?_range'_eq_some] at found
    obtain ⟨holds, inside, first⟩ := found
    rw [List.mem_range'_1] at inside
    refine ⟨inside.1, ⟨by omega, holds⟩, fun other behind before there => ?_⟩
    have fails := first other behind before
    rw [there.2] at fails
    cases fails

end Searches

section Marks

variable [DecidableEq α] {mark : α} {left right : List α}

theorem cutAt_first {part : List α} (present : part ≠ []) (text : List α) :
    FirstFrom (fun place => place < text.length ∧ part.isPrefixOf (text.drop place) = true) 0
      ((cutAt part text).map fun parts => parts.1.length) := by
  induction text with
  | nil =>
    rw [cutAt, if_neg present]
    exact fun place _ holds => absurd holds.1 (Nat.not_lt_zero _)
  | cons c rest ih =>
    by_cases starts : part.isPrefixOf (c :: rest) = true
    · rw [cutAt, if_pos starts]
      exact ⟨le_rfl, ⟨Nat.succ_pos _, starts⟩, fun place _ before => absurd before (Nat.not_lt_zero _)⟩
    · rw [cutAt, if_neg starts, Option.map_map]
      have later (place : Nat) (fails : ¬(place < rest.length ∧ part.isPrefixOf (rest.drop place) = true)) :
          ¬(place + 1 < (c :: rest).length ∧ part.isPrefixOf ((c :: rest).drop (place + 1)) = true) := by
        rwa [List.length_cons, Nat.add_lt_add_iff_right, List.drop_succ_cons]
      cases cut : cutAt part rest with
      | none =>
        rw [cut] at ih
        intro place behind
        cases place with
        | zero => exact fun holds => starts holds.2
        | succ place => exact later place (ih place (Nat.zero_le _))
      | some parts =>
        rw [cut] at ih
        obtain ⟨-, holds, before⟩ := ih
        refine ⟨Nat.zero_le _, ⟨Nat.succ_lt_succ holds.1, holds.2⟩, fun place behind less => ?_⟩
        cases place with
        | zero => exact fun holds => starts holds.2
        | succ place => exact later place (before place (Nat.zero_le _) (Nat.lt_of_succ_lt_succ less))

theorem findFrom_part {part : List α} (present : part ≠ []) (text : List α) (start : Nat) :
    findFrom (fun behind => part.isPrefixOf behind) text start =
      (cutAt part (text.drop start)).map fun parts => start + parts.1.length := by
  refine (findFrom_first _ text start).unique ?_
  have first := cutAt_first present (text.drop start)
  have shift (place : Nat) (behind : start ≤ place) :
      (place < text.length ∧ part.isPrefixOf (text.drop place) = true) ↔
        place - start < (text.drop start).length ∧ part.isPrefixOf ((text.drop start).drop (place - start)) = true := by
    rw [List.length_drop, List.drop_drop, Nat.add_sub_cancel' behind]
    exact and_congr_left fun _ => by omega
  cases cut : cutAt part (text.drop start) with
  | none =>
    rw [cut] at first
    exact fun place behind holds => first (place - start) (Nat.zero_le _) ((shift place behind).mp holds)
  | some parts =>
    rw [cut] at first
    obtain ⟨-, holds, before⟩ := first
    refine ⟨Nat.le_add_right _ _, (shift _ (Nat.le_add_right _ _)).mpr (by rwa [Nat.add_sub_cancel_left]), ?_⟩
    intro place behind less holds
    exact before (place - start) (Nat.zero_le _) (Nat.sub_lt_left_of_lt_add behind less) ((shift place behind).mp holds)

theorem idxOf_marked (absent : mark ∉ left) (right : List α) : (left ++ mark :: right).idxOf? mark = some left.length := by
  rw [List.idxOf?_eq_some_iff]
  refine ⟨by simp, by simp, ?_⟩
  intro j before
  rw [List.getElem_append_left before]
  exact fun same => absent (same ▸ List.getElem_mem before)

def lastIdxOf (mark : α) (text : List α) : Option Nat := (text.reverse.idxOf? mark).map fun behind => text.length - 1 - behind

theorem lastIdxOf_marked (left : List α) (absent : mark ∉ right) : lastIdxOf mark (left ++ mark :: right) = some left.length := by
  have behind := idxOf_marked (mt List.mem_reverse.mp absent) left.reverse
  have reversed : (left ++ mark :: right).reverse = right.reverse ++ mark :: left.reverse := by simp
  rw [lastIdxOf, reversed, behind, Option.map_some, List.length_reverse, List.length_append, List.length_cons, Option.some.injEq]
  omega

theorem lastIdxOf_get {text : List α} {place : Nat} (found : lastIdxOf mark text = some place) : text[place]? = some mark := by
  rw [lastIdxOf, Option.map_eq_some_iff] at found
  obtain ⟨behind, reversed, rfl⟩ := found
  obtain ⟨inside, same, -⟩ := List.idxOf?_eq_some_iff.mp reversed
  rw [List.length_reverse] at inside
  rw [List.getElem_reverse] at same
  rw [List.getElem?_eq_getElem (by omega), same]

end Marks

section Changes

-- Nothing where the place is behind the end, which throws.
def replaceAt (text : List α) (place count : Nat) (part : List α) : Option (List α) :=
  if place ≤ text.length then some (text.take place ++ part ++ text.drop (place + count)) else none

variable {place : Nat} {c : α}

theorem drop_eq_cons (there : text[place]? = some c) : text.drop place = c :: text.drop (place + 1) := by
  obtain ⟨inside, same⟩ := List.getElem?_eq_some_iff.mp there
  rw [List.drop_eq_getElem_cons inside, same]

theorem take_succ (there : text[place]? = some c) : text.take (place + 1) = text.take place ++ [c] := by
  rw [List.take_add_one, there]
  rfl

theorem drop_between (text : List α) {stop : Nat} (order : start ≤ stop) : ∃ part, text.drop start = part ++ text.drop stop ∧
    ∀ c ∈ part, ∃ place, start ≤ place ∧ place < stop ∧ text[place]? = some c := by
  refine ⟨(text.drop start).take (stop - start), ?_, ?_⟩
  · conv_lhs => rw [← List.take_append_drop (stop - start) (text.drop start)]
    rw [List.drop_drop, Nat.add_sub_cancel' order]
  · intro c there
    obtain ⟨index, here⟩ := List.mem_iff_getElem?.mp there
    rw [List.getElem?_take] at here
    split at here
    next less =>
      rw [List.getElem?_drop] at here
      exact ⟨start + index, Nat.le_add_right _ _, by omega, here⟩
    next => cases here

theorem lt_of_get (there : text[place]? = some c) : place < text.length := (List.getElem?_eq_some_iff.mp there).1

end Changes

end SubConverter.Places
