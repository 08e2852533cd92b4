import Mathlib.Tactic

set_option autoImplicit false

namespace SubConverter.Loops

/-! Loops that may go on for ever, run with a limited number of turns. -/

variable {σ ρ τ α : Type}

/-- A program that gives nothing where its fuel does not last, or where it throws. -/
abbrev Fueled (ρ : Type) := ReaderT Nat Option ρ

-- After a turn the loop goes on in another state, or it is left.
inductive Turn (σ ρ : Type) where
  | again (s : σ)
  | done (result : ρ)

def loopFor (turn : σ → Fueled (Turn σ ρ)) : Nat → σ → Option ρ
  | 0, _ => none
  | fuel + 1, s =>
    match turn s fuel with
    | none => none
    | some (.again next) => loopFor turn fuel next
    | some (.done result) => some result

def loop (turn : σ → Fueled (Turn σ ρ)) (s : σ) : Fueled ρ := fun fuel => loopFor turn fuel s

/-- The program comes to its end with this result when it has fuel enough. -/
def Halts (program : Fueled ρ) (result : ρ) : Prop := ∃ steps, ∀ fuel, steps ≤ fuel → program fuel = some result

namespace Halts

section Rules

variable {program : Fueled ρ} {next : ρ → Fueled τ} {result : ρ} {last : τ}

theorem pure (result : ρ) : Halts (Pure.pure result) result := ⟨0, fun _ _ => rfl⟩

theorem lift {value : Option ρ} (same : value = some result) : Halts (liftM value) result := ⟨0, fun _ _ => same⟩

theorem bind (first : Halts program result) (second : Halts (next result) last) : Halts (program >>= next) last := by
  obtain ⟨few, first⟩ := first
  obtain ⟨more, second⟩ := second
  refine ⟨max few more, fun fuel enough => ?_⟩
  have one := first fuel (le_of_max_le_left enough)
  have two := second fuel (le_of_max_le_right enough)
  change (program fuel).bind (fun result => next result fuel) = some last
  rw [one, Option.bind_some, two]

theorem foldlM {step : τ → α → Fueled τ} (Holds : List α → τ → Prop)
    (steps : ∀ {seen : List α} {s : τ} (item : α), Holds seen s → ∃ s', Halts (step s item) s' ∧ Holds (seen ++ [item]) s')
    {seen items : List α} {s : τ} (start : Holds seen s) : ∃ s', Halts (items.foldlM step s) s' ∧ Holds (seen ++ items) s' := by
  induction items generalizing seen s with
  | nil => exact ⟨s, pure s, by rwa [List.append_nil]⟩
  | cons item rest ih =>
    obtain ⟨middle, first, kept⟩ := steps item start
    obtain ⟨last, second, whole⟩ := ih kept
    refine ⟨last, ?_, by rwa [List.append_assoc] at whole⟩
    rw [List.foldlM_cons]
    exact bind first second

end Rules

section Turns

variable {turn : σ → Fueled (Turn σ ρ)} {s next : σ} {result : ρ}

theorem loop_done (left : Halts (turn s) (.done result)) : Halts (loop turn s) result := by
  obtain ⟨steps, left⟩ := left
  refine ⟨steps + 1, fun fuel enough => ?_⟩
  obtain ⟨rest, rfl⟩ := Nat.exists_eq_succ_of_ne_zero (Nat.ne_of_gt (Nat.zero_lt_of_lt enough))
  rw [loop, loopFor, left rest (Nat.le_of_succ_le_succ enough)]

theorem loop_again (on : Halts (turn s) (.again next)) (later : Halts (loop turn next) result) : Halts (loop turn s) result := by
  obtain ⟨few, on⟩ := on
  obtain ⟨more, later⟩ := later
  refine ⟨max few more + 1, fun fuel enough => ?_⟩
  obtain ⟨rest, rfl⟩ := Nat.exists_eq_succ_of_ne_zero (Nat.ne_of_gt (Nat.zero_lt_of_lt enough))
  have enough := Nat.le_of_succ_le_succ enough
  rw [loop, loopFor, on rest (le_of_max_le_left enough)]
  exact later rest (le_of_max_le_right enough)

theorem loop_keeps (size : σ → Nat) (Keeps : σ → Prop) (Leaves : ρ → Prop)
    (turns : ∀ {s : σ}, Keeps s → (∃ result, Halts (turn s) (.done result) ∧ Leaves result) ∨
      ∃ next, Halts (turn s) (.again next) ∧ Keeps next ∧ size next < size s)
    (start : Keeps s) : ∃ result, Halts (loop turn s) result ∧ Leaves result := by
  induction measure : size s using Nat.strong_induction_on generalizing s with
  | _ _ ih =>
    subst measure
    rcases turns start with ⟨result, left, last⟩ | ⟨next, on, kept, smaller⟩
    · exact ⟨result, loop_done left, last⟩
    · obtain ⟨result, later, last⟩ := ih (size next) smaller kept rfl
      exact ⟨result, loop_again on later, last⟩

end Turns

end Halts

end SubConverter.Loops
