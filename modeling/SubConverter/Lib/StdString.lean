import Mathlib.Data.List.DropRight
import Mathlib.Tactic

set_option autoImplicit false

namespace SubConverter

/-! Texts with positions in a `size_t`, as `std::string` has them. -/

@[irreducible] def npos : Nat := 2 ^ 64 - 1

-- Sums and differences of a `size_t` wrap around.
@[irreducible] def sizeAdd (a b : Nat) : Nat := (a + b) % 2 ^ 64

@[irreducible] def sizeSub (a b : Nat) : Nat := (a + (2 ^ 64 - b)) % 2 ^ 64

/-- A text whose positions are all below `npos`. -/
@[ext] structure StdString (α : Type) where
  text : List α
  fits : text.length < npos
deriving DecidableEq

namespace StdString

variable {α : Type}

def size (str : StdString α) : Nat := str.text.length

section Searches

variable [DecidableEq α]

def findFirstNotOf (str : StdString α) (target : α) : Nat :=
  let index := str.text.findIdx fun c => c ≠ target
  if index < str.size then index else npos

def findLastNotOf (str : StdString α) (target : α) : Nat :=
  let behind := str.text.reverse.findIdx fun c => c ≠ target
  if behind < str.size then str.size - 1 - behind else npos

end Searches

-- Nothing where the position is behind the end, which throws.
def erase (str : StdString α) (index count : Nat) : Option (StdString α) :=
  if index ≤ str.size then
    some ⟨str.text.take index ++ str.text.drop (index + count), by
      have fits := str.fits
      rw [List.length_append, List.length_take, List.length_drop]
      omega⟩
  else none

def substr (str : StdString α) (index count : Nat) : Option (StdString α) :=
  if index ≤ str.size then
    some ⟨(str.text.drop index).take count, by
      have fits := str.fits
      rw [List.length_take, List.length_drop]
      omega⟩
  else none

section Rules

variable {str : StdString α} {index count : Nat}

theorem size_lt (str : StdString α) : str.size < npos := str.fits

theorem zero_ne_npos (str : StdString α) : 0 ≠ npos := Nat.ne_of_lt (Nat.zero_lt_of_lt str.size_lt)

theorem sizeAdd_one {n : Nat} (below : n < npos) : sizeAdd n 1 = n + 1 := by
  rw [npos] at below
  rw [sizeAdd, Nat.mod_eq_of_lt (by omega)]

theorem sizeSub_eq {a b : Nat} (below : a < npos) (less : b ≤ a) : sizeSub a b = a - b := by
  rw [npos] at below
  rw [sizeSub, ← Nat.add_sub_assoc (by omega), Nat.add_comm, Nat.add_sub_assoc less, Nat.add_mod_left, Nat.mod_eq_of_lt (by omega)]

theorem sizeSub_zero_one : sizeSub 0 1 = npos := by simp [sizeSub, npos]

theorem erase_eq (count : Nat) (inside : index ≤ str.size) :
    ∃ out, str.erase index count = some out ∧ out.text = str.text.take index ++ str.text.drop (index + count) := by
  rw [erase, if_pos inside]
  exact ⟨_, rfl, rfl⟩

theorem substr_eq (count : Nat) (inside : index ≤ str.size) :
    ∃ out, str.substr index count = some out ∧ out.text = (str.text.drop index).take count := by
  rw [substr, if_pos inside]
  exact ⟨_, rfl, rfl⟩

theorem drop_npos (str : StdString α) (index : Nat) : str.text.drop (index + npos) = [] := by
  have below := str.fits
  exact List.drop_eq_nil_of_le (by omega)

variable [DecidableEq α] {target : α}

theorem findFirstNotOf_all (all : ∀ c ∈ str.text, c = target) : str.findFirstNotOf target = npos := by
  rw [findFirstNotOf, List.findIdx_eq_length_of_false (by simpa using all), size]
  exact if_neg (lt_irrefl _)

theorem findLastNotOf_all (all : ∀ c ∈ str.text, c = target) : str.findLastNotOf target = npos := by
  have none' : ∀ c ∈ str.text.reverse, decide (c ≠ target) = false := by simpa using all
  rw [findLastNotOf, List.findIdx_eq_length_of_false none', List.length_reverse, size]
  exact if_neg (lt_irrefl _)

theorem findIdx_run {front rest : List α} {c : α} (run : ∀ c ∈ front, c = target) (other : c ≠ target) :
    (front ++ c :: rest).findIdx (fun c => c ≠ target) = front.length := by
  have none' : ∀ c ∈ front, decide (c ≠ target) = false := by simpa using run
  rw [List.findIdx_append, List.findIdx_eq_length_of_false none', if_neg (lt_irrefl _)]
  simp [List.findIdx_cons, other]

theorem findFirstNotOf_eq {front rest : List α} {c : α} (whole : str.text = front ++ c :: rest)
    (run : ∀ c ∈ front, c = target) (other : c ≠ target) : str.findFirstNotOf target = front.length := by
  rw [findFirstNotOf, size, whole, findIdx_run run other]
  exact if_pos (by simp)

theorem findLastNotOf_eq {front back : List α} {c : α} (whole : str.text = front ++ c :: back)
    (run : ∀ c ∈ back, c = target) (other : c ≠ target) : str.findLastNotOf target = front.length := by
  have place : (front ++ c :: back).reverse.findIdx (fun c => c ≠ target) = back.length := by
    have reversed : (front ++ c :: back).reverse = back.reverse ++ c :: front.reverse := by simp
    rw [reversed, findIdx_run (fun c there => run c (List.mem_reverse.mp there)) other, List.length_reverse]
  have size : (front ++ c :: back).length = front.length + (back.length + 1) := by simp
  rw [findLastNotOf, StdString.size, whole, place, size, if_pos (by omega)]
  omega

end Rules

end StdString

end SubConverter
