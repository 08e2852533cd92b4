import Mathlib.Tactic

set_option autoImplicit false

namespace SubConverter.FirstMatch

/-! Lists of rules of which the first one that applies decides. -/

variable {ρ σ τ : Type} {applies : ρ → Bool} {goal : ρ → τ} {t : τ}

def target (applies : ρ → Bool) (goal : ρ → τ) (rules : List ρ) : Option τ := (rules.find? applies).map goal

theorem target_append (first second : List ρ) :
    target applies goal (first ++ second) = (target applies goal first).or (target applies goal second) := by
  rw [target, List.find?_append, Option.map_or, target, target]

end SubConverter.FirstMatch
