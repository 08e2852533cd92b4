import Mathlib.Tactic

set_option autoImplicit false

namespace SubConverter

/-- A fixed-size array. An index outside `0 .. n - 1` reads the supplied default and writes nothing. -/
abbrev Table (n : Nat) (α : Type) := Fin n → α

namespace Table

variable {n : Nat} {α : Type}

def getD (table : Table n α) (index : Nat) (fallback : α) : α :=
  if inside : index < n then table ⟨index, inside⟩ else fallback

def modify (table : Table n α) (index : Nat) (change : α → α) : Table n α := fun i =>
  if i.val = index then change (table i) else table i

def set (table : Table n α) (index : Nat) (value : α) : Table n α := table.modify index fun _ => value

theorem getD_of_lt (table : Table n α) {index : Nat} (fallback : α) (inside : index < n) :
    table.getD index fallback = table ⟨index, inside⟩ := by
  simp [getD, inside]

theorem modify_apply (table : Table n α) (index : Nat) (change : α → α) (i : Fin n) :
    table.modify index change i = if i.val = index then change (table i) else table i := rfl

theorem set_apply (table : Table n α) (index : Nat) (value : α) (i : Fin n) :
    table.set index value i = if i.val = index then value else table i := rfl

section Store

variable {σ : Type} (keyOf : σ → Nat) (valueOf : σ → α)

theorem foldl_set_other (entries : List σ) (table : Table n α) (i : Fin n)
    (other : ∀ entry ∈ entries, keyOf entry ≠ i.val) :
    entries.foldl (fun table entry => table.set (keyOf entry) (valueOf entry)) table i = table i := by
  induction entries generalizing table with
  | nil => rfl
  | cons entry rest ih =>
    rw [List.foldl_cons, ih _ fun later member => other later (List.mem_cons_of_mem _ member), set_apply,
      if_neg (other entry (by simp)).symm]

theorem foldl_set_member (entries : List σ) (table : Table n α) (i : Fin n) (entry : σ)
    (nodup : (entries.map keyOf).Nodup) (member : entry ∈ entries) (here : keyOf entry = i.val) :
    entries.foldl (fun table entry => table.set (keyOf entry) (valueOf entry)) table i = valueOf entry := by
  induction entries generalizing table with
  | nil => contradiction
  | cons head rest ih =>
    simp only [List.map_cons, List.nodup_cons, List.mem_map, not_exists, not_and] at nodup
    rw [List.foldl_cons]
    rcases List.mem_cons.mp member with rfl | later
    · rw [foldl_set_other keyOf valueOf rest _ i fun other present => here ▸ nodup.1 other present, set_apply,
        if_pos here.symm]
    · exact ih _ nodup.2 later

end Store

end Table

end SubConverter
