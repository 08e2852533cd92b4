import Mathlib.Tactic

set_option autoImplicit false

namespace SubConverter

section Results

variable {ε α β : Type} {error : ε} {value : β}

theorem guard_eq_ok_iff {failed : Prop} [Decidable failed] {rest : Except ε β} :
    (if failed then .error error else rest) = .ok value ↔ ¬failed ∧ rest = .ok value := by
  by_cases wrong : failed
  · simp [wrong]
  · simp [wrong]

theorem bind_eq_ok_iff {first : Except ε α} {next : α → Except ε β} :
    first >>= next = .ok value ↔ ∃ between, first = .ok between ∧ next between = .ok value := by
  cases first with
  | error error => simp [bind, Except.bind]
  | ok between => simp [bind, Except.bind]

theorem map_eq_ok_iff {first : Except ε α} {next : α → β} :
    first.map next = .ok value ↔ ∃ between, first = .ok between ∧ next between = value := by
  cases first with
  | error error => simp [Except.map]
  | ok between => simp [Except.map]

theorem mapM_eq_some_iff {f : α → Option β} {inputs : List α} {outputs : List β} :
    inputs.mapM f = some outputs ↔ List.Forall₂ (fun input output => f input = some output) inputs outputs := by
  induction inputs generalizing outputs with
  | nil => simp [eq_comm]
  | cons input rest ih =>
    rw [List.mapM_cons, List.forall₂_cons_left_iff]
    simp only [Option.bind_eq_bind, Option.bind_eq_some_iff, Option.pure_def, Option.some.injEq, ih]
    constructor
    · rintro ⟨output, first, others, more, rfl⟩
      exact ⟨output, others, first, more, rfl⟩
    · rintro ⟨output, others, first, more, rfl⟩
      exact ⟨output, first, others, more, rfl⟩

end Results

end SubConverter
