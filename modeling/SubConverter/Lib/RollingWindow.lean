import Mathlib.Algebra.BigOperators.Fin
import Mathlib.Algebra.Order.Sub.Prod
import SubConverter.Lib.Table

set_option autoImplicit false

namespace SubConverter.RollingWindow

open scoped BigOperators

variable {slots : Nat} {M : Type} [AddCommMonoid M]

/-- The total of the slots whose stamp lies in `(low, high]`. -/
def windowSum (stamp : Fin slots → Int) (value : Fin slots → M) (low high : Int) : M :=
  ∑ j, if low < stamp j ∧ stamp j ≤ high then value j else 0

-- A slot is either vacant (stamp 0) or holds a stamp of its own residue that is already past.
def Placed (stamp : Fin slots → Int) (current : Int) : Prop :=
  ∀ j, stamp j = 0 ∨ (0 < stamp j ∧ stamp j < current ∧ stamp j % slots = j.val)

theorem Placed.mono {stamp : Fin slots → Int} {current later : Int} (placed : Placed stamp current)
    (order : current ≤ later) : Placed stamp later := by
  intro j
  rcases placed j with vacant | ⟨positive, past, residue⟩
  · exact .inl vacant
  · exact .inr ⟨positive, by omega, residue⟩

theorem Placed.set {stamp : Fin slots → Int} {current written : Int} {index : Nat}
    (placed : Placed stamp current) (positive : 0 < current)
    (residue : current % slots = index) (choice : written = current ∨ written = 0) :
    Placed (fun j => if j.val = index then written else stamp j) (current + 1) := by
  intro j
  by_cases here : j.val = index
  · rcases choice with rfl | rfl
    · exact .inr (by simp [here, residue, positive])
    · exact .inl (by simp [here])
  · simpa [here] using (placed.mono (by omega : current ≤ current + 1)) j

theorem not_residue_of_neighbour {current size : Int} (wide : 1 < size) (narrow : size ≤ slots) :
    (current + 1 - size) % slots ≠ current % slots := by
  intro same
  have divides : (slots : Int) ∣ (current + 1 - size) - current :=
    Int.ModEq.dvd (Int.ModEq.symm same)
  have negated : (slots : Int) ∣ size - 1 := by
    have h := (dvd_neg (a := (slots : Int))).mpr divides
    have rearranged : -(current + 1 - size - current) = size - 1 := by ring
    rwa [rearranged] at h
  have bound := Int.le_of_dvd (by omega) negated
  omega

theorem stale_of_residue {stamp : Fin slots → Int} {current : Int} {index : Fin slots}
    (placed : Placed stamp current) (residue : current % slots = index.val) :
    stamp index = 0 ∨ stamp index ≤ current - slots := by
  rcases placed index with vacant | ⟨_, past, own⟩
  · exact .inl vacant
  · right
    have divides : (slots : Int) ∣ current - stamp index :=
      Int.ModEq.dvd (show stamp index ≡ current [ZMOD slots] by rw [Int.ModEq, own, residue])
    have bound := Int.le_of_dvd (by omega) divides
    omega

theorem windowSum_slide {stamp : Fin slots → Int} (value : Fin slots → M) {current size written : Int}
    {entering : M} {index expired : Fin slots}
    (placed : Placed stamp current) (wide : 1 < size) (narrow : size ≤ slots) (started : size ≤ current)
    (residue : current % slots = index.val) (oldest : (current + 1 - size) % slots = expired.val)
    (choice : written = current ∨ (written = 0 ∧ entering = 0)) :
    windowSum (fun j => if j.val = index.val then written else stamp j)
        (fun j => if j.val = index.val then entering else value j)
        (current + 1 - size) (current + 1) +
      (if stamp expired = current + 1 - size then value expired else 0) =
    windowSum stamp value (current - size) current + entering := by
  have apart : expired ≠ index := by
    intro same
    exact not_residue_of_neighbour wide narrow (oldest.trans (by rw [residue, same]))
  have leaving : (if stamp expired = current + 1 - size then value expired else 0) =
      ∑ j, if j = expired then (if stamp j = current + 1 - size then value j else 0) else 0 := by
    simp
  have incoming : entering = ∑ j : Fin slots, if j = index then entering else 0 := by simp
  rw [leaving]
  refine Eq.trans ?_ (congrArg (windowSum stamp value (current - size) current + ·) incoming.symm)
  unfold windowSum
  rw [← Finset.sum_add_distrib, ← Finset.sum_add_distrib]
  apply Finset.sum_congr rfl
  intro j _
  by_cases sealedSlot : j = index
  · subst sealedSlot
    have stale := stale_of_residue placed residue
    have notExpired : j ≠ expired := fun same => apart same.symm
    have outside : ¬ (current - size < stamp j ∧ stamp j ≤ current) := by omega
    rcases choice with rfl | ⟨rfl, rfl⟩
    · have inside : written + 1 - size < written ∧ written ≤ written + 1 := by omega
      simp [notExpired, outside, inside]
    · simp [notExpired, outside]
  · have differs : j.val ≠ index.val := fun same => sealedSlot (Fin.ext same)
    simp only [differs, if_false, sealedSlot, add_zero]
    by_cases leaves : j = expired
    · subst leaves
      have past : stamp j = 0 ∨ stamp j < current := by
        rcases placed j with vacant | ⟨_, past, _⟩
        · exact .inl vacant
        · exact .inr past
      by_cases exact : stamp j = current + 1 - size
      · have inside : current - size < stamp j ∧ stamp j ≤ current := by omega
        have outside : ¬ (current + 1 - size < stamp j ∧ stamp j ≤ current + 1) := by omega
        rw [if_pos rfl, if_pos exact, if_neg outside, if_pos inside, zero_add]
      · have same : (current + 1 - size < stamp j ∧ stamp j ≤ current + 1) ↔
            (current - size < stamp j ∧ stamp j ≤ current) := by omega
        simp [exact, same]
    · have kept : (current + 1 - size < stamp j ∧ stamp j ≤ current + 1) ↔
          (current - size < stamp j ∧ stamp j ≤ current) := by
        rcases placed j with vacant | ⟨_, past, own⟩
        · omega
        · have differs : stamp j ≠ current + 1 - size := by
            intro same
            apply leaves
            apply Fin.ext
            have h : ((j.val : Int)) = expired.val := by rw [← own, ← oldest, same]
            exact_mod_cast h
          omega
      simp [leaves, kept]

theorem windowSum_eq_zero {stamp : Fin slots → Int} {value : Fin slots → M} {low high : Int}
    (outside : ∀ j, ¬ (low < stamp j ∧ stamp j ≤ high)) : windowSum stamp value low high = 0 := by
  unfold windowSum
  exact Finset.sum_eq_zero fun j _ => if_neg (outside j)

end SubConverter.RollingWindow
