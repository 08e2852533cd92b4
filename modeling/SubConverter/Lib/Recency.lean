import Mathlib.Tactic

set_option autoImplicit false

namespace SubConverter

/-! Which of several keys was used last, from the list of their uses, the newest first. -/

variable {κ : Type} [DecidableEq κ] {key other : κ} {uses : List κ}

def lastUse (key : κ) : List κ → Nat
  | [] => 0
  | used :: rest => if used = key then rest.length + 1 else lastUse key rest

@[simp] theorem lastUse_self : lastUse key (key :: uses) = uses.length + 1 := if_pos rfl

theorem lastUse_of_ne (different : other ≠ key) : lastUse key (other :: uses) = lastUse key uses := if_neg different

theorem lastUse_le : lastUse key uses ≤ uses.length := by
  induction uses with
  | nil => exact Nat.le_refl _
  | cons used rest ih =>
    rw [lastUse, List.length_cons]
    split <;> omega

theorem eq_of_lastUse (same : lastUse key uses = lastUse other uses) (used : lastUse key uses ≠ 0) : key = other := by
  induction uses with
  | nil => exact absurd rfl used
  | cons first rest ih =>
    have before := @lastUse_le _ _ key rest
    have before' := @lastUse_le _ _ other rest
    rw [lastUse, lastUse] at same
    rw [lastUse] at used
    split at same <;> split at same
    next here there => exact here.symm.trans there
    next => omega
    next => omega
    next elsewhere _ =>
      rw [if_neg elsewhere] at used
      exact ih same used

end SubConverter
