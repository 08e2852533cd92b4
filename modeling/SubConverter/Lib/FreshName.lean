import Mathlib.Data.List.Perm.Subperm
import Mathlib.Data.List.Nodup
import Mathlib.Data.List.Range
import Mathlib.Data.Set.Function
import Mathlib.Order.Interval.Set.Defs

set_option autoImplicit false

namespace SubConverter

section FreshName

variable {Name Key : Type} [DecidableEq Key] {key : Name → Key} {used : List Key} {candidate : Nat → Name}

def firstFree (key : Name → Key) (used : List Key) (candidate : Nat → Name) : Nat → Nat → Name
  | 0, number => candidate number
  | rounds + 1, number =>
    if key (candidate number) ∈ used then firstFree key used candidate rounds (number + 1) else candidate number

-- One round more than there are used keys is enough, so an int does for the counter while there are fewer than 2^31 of them.
def freshName (key : Name → Key) (used : List Key) (candidate : Nat → Name) (start : Nat) : Name :=
  firstFree key used candidate used.length start

theorem firstFree_spec (rounds number : Nat) :
    ∃ found, firstFree key used candidate rounds number = candidate found ∧ number ≤ found ∧ found ≤ number + rounds ∧
      (∀ earlier, number ≤ earlier → earlier < found → key (candidate earlier) ∈ used) ∧
      (key (candidate found) ∈ used → found = number + rounds) := by
  induction rounds generalizing number with
  | zero => exact ⟨number, rfl, le_rfl, le_rfl, fun _ _ _ => by omega, fun _ => rfl⟩
  | succ rounds ih =>
    by_cases taken : key (candidate number) ∈ used
    · obtain ⟨found, same, least, most, earlier, last⟩ := ih (number + 1)
      refine ⟨found, by rw [firstFree, if_pos taken, same], by omega, by omega, ?_, fun inside => by rw [last inside]; omega⟩
      intro other behind before
      by_cases first : other = number
      · exact first ▸ taken
      · exact earlier other (by omega) before
    · exact ⟨number, by rw [firstFree, if_neg taken], le_rfl, by omega, fun _ _ _ => by omega,
        fun inside => absurd inside taken⟩

theorem key_freshName_not_mem_of_injOn {start : Nat} (injective : Set.InjOn (fun number => key (candidate number)) (Set.Ici start)) :
    key (freshName key used candidate start) ∉ used := by
  intro inside
  obtain ⟨found, same, -, -, earlier, last⟩ := @firstFree_spec Name Key _ key used candidate used.length start
  rw [freshName, same] at inside
  have far := last inside
  -- All candidates that were tried are used, and there is one more of them than there are used keys.
  have tried : ((List.range (used.length + 1)).map fun step => key (candidate (start + step))) ⊆ used := by
    intro name there
    obtain ⟨step, within, rfl⟩ := List.mem_map.mp there
    rw [List.mem_range] at within
    by_cases final : start + step = found
    · exact final ▸ inside
    · exact earlier (start + step) (by omega) (by omega)
  have different : ((List.range (used.length + 1)).map fun step => key (candidate (start + step))).Nodup := by
    refine List.nodup_range.map fun first second equal => ?_
    exact Nat.add_left_cancel (injective (Nat.le_add_right start first) (Nat.le_add_right start second) equal)
  have count := (different.subperm tried).length_le
  rw [List.length_map, List.length_range] at count
  omega

theorem key_freshName_not_mem (injective : Function.Injective fun number => key (candidate number)) (start : Nat) :
    key (freshName key used candidate start) ∉ used :=
  key_freshName_not_mem_of_injOn injective.injOn

end FreshName

section Sequences

variable {α Name Key : Type} {key : Name → Key} {give : α → List Key → Name}

def nameAll (key : Name → Key) (give : α → List Key → Name) : List α → List Key → List Name
  | [], _ => []
  | x :: rest, used => give x used :: nameAll key give rest (key (give x used) :: used)

theorem nameAll_nodup (fresh : ∀ x used, key (give x used) ∉ used) (xs : List α) (used : List Key) :
    ((nameAll key give xs used).map key).Nodup ∧ ∀ name ∈ nameAll key give xs used, key name ∉ used := by
  induction xs generalizing used with
  | nil => simp [nameAll]
  | cons x rest ih =>
    obtain ⟨distinct, apart⟩ := ih (key (give x used) :: used)
    rw [nameAll, List.map_cons, List.nodup_cons, List.forall_mem_cons]
    refine ⟨⟨?_, distinct⟩, fresh x used, fun name there inside => apart name there (List.mem_cons_of_mem _ inside)⟩
    intro again
    obtain ⟨name, there, same⟩ := List.mem_map.mp again
    exact apart name there (same ▸ List.mem_cons_self)

theorem forall_mem_nameAll {P : Name → Prop} (each : ∀ x used, P (give x used)) (xs : List α) (used : List Key) :
    ∀ name ∈ nameAll key give xs used, P name := by
  induction xs generalizing used with
  | nil => simp [nameAll]
  | cons x rest ih => exact List.forall_mem_cons.mpr ⟨each x used, ih _⟩

theorem forall_mem_nameAll_of_room {P : Name → Prop} {limit : Nat} (each : ∀ x used, used.length < limit → P (give x used))
    (xs : List α) (used : List Key) (room : used.length + xs.length ≤ limit) : ∀ name ∈ nameAll key give xs used, P name := by
  induction xs generalizing used with
  | nil => simp [nameAll]
  | cons x rest ih =>
    rw [List.length_cons] at room
    exact List.forall_mem_cons.mpr ⟨each x used (by omega), ih _ (by rw [List.length_cons]; omega)⟩

end Sequences

end SubConverter
