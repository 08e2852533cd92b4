import Mathlib.Tactic

set_option autoImplicit false

namespace SubConverter.Cursor

/-! Scanners that read a text at an index; a read behind the end has no value. -/

variable {α : Type} {text : List α} {fits : α → Bool} {pos : Nat}

def peek (text : List α) (pos : Nat) (fits : α → Bool) : Option Bool :=
  if pos < text.length then text[pos]?.map fits else some false

/-- The index behind the fitting elements from `pos` on, of which there may be at most so many. -/
def skipWhile (text : List α) (fits : α → Bool) : Nat → Nat → Option Nat
  | 0, pos => some pos
  | limit + 1, pos => do
    if ← peek text pos fits then skipWhile text fits limit (pos + 1) else some pos

def allFrom (text : List α) (fits : α → Bool) : Nat → Nat → Option Bool
  | 0, _ => some true
  | left + 1, pos => do
    let c ← text[pos]?
    if fits c then allFrom text fits left (pos + 1) else some false

@[simp] theorem peek_eq (text : List α) (pos : Nat) (fits : α → Bool) :
    peek text pos fits = some ((text.drop pos).head?.any fits) := by
  rw [peek, List.head?_drop]
  split
  next inside =>
    rw [List.getElem?_eq_getElem inside]
    rfl
  next outside =>
    rw [List.getElem?_eq_none (by omega)]
    rfl

theorem skipWhile_eq (text : List α) (fits : α → Bool) (limit pos : Nat) :
    skipWhile text fits limit pos = some (pos + (((text.drop pos).take limit).takeWhile fits).length) := by
  induction limit generalizing pos with
  | zero => simp [skipWhile]
  | succ limit ih =>
    simp only [skipWhile, peek_eq, Option.bind_eq_bind, Option.bind_some]
    by_cases inside : pos < text.length
    · rw [List.drop_eq_getElem_cons inside, List.take_succ_cons, List.takeWhile_cons, List.head?_cons, Option.any_some, ih]
      split
      · rw [List.length_cons]
        exact congrArg some (by omega)
      · rfl
    · rw [List.drop_eq_nil_of_le (by omega)]
      rfl

theorem skipWhile_all (text : List α) (fits : α → Bool) (pos : Nat) :
    skipWhile text fits (text.length - pos) pos = some (pos + ((text.drop pos).takeWhile fits).length) := by
  rw [skipWhile_eq, List.take_of_length_le (by rw [List.length_drop])]

theorem drop_takeWhile (fits : α → Bool) (text : List α) (pos : Nat) :
    text.drop (pos + ((text.drop pos).takeWhile fits).length) = (text.drop pos).dropWhile fits := by
  rw [← List.drop_drop]
  induction text.drop pos with
  | nil => rfl
  | cons c rest ih =>
    rw [List.takeWhile_cons, List.dropWhile_cons]
    split
    · rw [List.length_cons, List.drop_succ_cons, ih]
    · rfl

theorem allFrom_eq (text : List α) (fits : α → Bool) (left pos : Nat) (whole : pos + left = text.length) :
    allFrom text fits left pos = some ((text.drop pos).all fits) := by
  induction left generalizing pos with
  | zero => rw [allFrom, List.drop_eq_nil_of_le (by omega), List.all_nil]
  | succ left ih =>
    have inside : pos < text.length := by omega
    simp only [allFrom, List.getElem?_eq_getElem inside, Option.bind_eq_bind, Option.bind_some]
    rw [List.drop_eq_getElem_cons inside, List.all_cons, ih (pos + 1) (by omega)]
    cases fits text[pos] <;> rfl

end SubConverter.Cursor
