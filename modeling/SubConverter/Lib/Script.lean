import Mathlib.Tactic

set_option autoImplicit false

namespace SubConverter

/-- A program whose steps are operations on some outside state, each with an answer. -/
inductive Script (ω : Type) (β : ω → Type) (α : Type) where
  | done (value : α)
  | act (op : ω) (next : β op → Script ω β α)

namespace Script

variable {ω : Type} {β : ω → Type} {α γ : Type}

def bind : Script ω β α → (α → Script ω β γ) → Script ω β γ
  | .done value, f => f value
  | .act op next, f => .act op fun answer => (next answer).bind f

instance : Monad (Script ω β) where
  pure := .done
  bind := bind

section Run

variable {σ φ : Type} (outcome : (op : ω) → φ → σ → β op × σ)

/-- Run a script whose steps meet the given fates. It stops before the first step that has none left. -/
def run : Script ω β α → List φ → σ → Option α × σ
  | .done value, _, state => (some value, state)
  | .act _ _, [], state => (none, state)
  | .act op next, fate :: fates, state =>
    (next (outcome op fate state).1).run fates (outcome op fate state).2

/-- Run a script to its end, all steps meeting the same fate. -/
def finish (fate : φ) : Script ω β α → σ → α × σ
  | .done value, state => (value, state)
  | .act op next, state => (next (outcome op fate state).1).finish fate (outcome op fate state).2

/-- Started in the state, the script keeps `always` before each of its steps and ends in `post`, whatever
fates that `allow` admits its steps meet. -/
def Keeps (allow : ω → φ → σ → Prop) (always : σ → Prop) (post : α → σ → Prop) : Script ω β α → σ → Prop
  | .done value, state => post value state
  | .act op next, state => always state ∧ ∀ fate, allow op fate state →
    (next (outcome op fate state).1).Keeps allow always post (outcome op fate state).2

end Run

section Rules

variable {σ φ : Type} {outcome : (op : ω) → φ → σ → β op × σ} {allow : ω → φ → σ → Prop} {always : σ → Prop}
  {post : α → σ → Prop} {state : σ}

theorem Keeps.mono {weaker : α → σ → Prop} {script : Script ω β α}
    (keeps : script.Keeps outcome allow always post state)
    (implies : ∀ value state, post value state → weaker value state) :
    script.Keeps outcome allow always weaker state := by
  induction script generalizing state with
  | done value => exact implies value state keeps
  | act op next ih => exact ⟨keeps.1, fun fate allowed => ih _ (keeps.2 fate allowed)⟩

theorem Keeps.bind {script : Script ω β γ} {next : γ → Script ω β α}
    (keeps : script.Keeps outcome allow always (fun value => (next value).Keeps outcome allow always post) state) :
    (script >>= next).Keeps outcome allow always post state := by
  induction script generalizing state with
  | done value => exact keeps
  | act op more ih => exact ⟨keeps.1, fun fate allowed => ih _ (keeps.2 fate allowed)⟩

@[simp] theorem keeps_pure (value : α) :
    (pure value : Script ω β α).Keeps outcome allow always post state ↔ post value state := Iff.rfl

theorem Keeps.run {script : Script ω β α} (keeps : script.Keeps outcome (fun _ _ _ => True) always post state)
    (fates : List φ) :
    match script.run outcome fates state with
    | (some value, final) => post value final
    | (none, final) => always final := by
  induction script generalizing state fates with
  | done value => exact keeps
  | act op next ih =>
    cases fates with
    | nil => exact keeps.1
    | cons fate fates => exact ih _ (keeps.2 fate trivial) fates

theorem Keeps.returns {script : Script ω β α}
    (keeps : script.Keeps outcome (fun _ _ _ => True) always post state) {fates : List φ} {value : α}
    (returned : (script.run outcome fates state).1 = some value) :
    post value (script.run outcome fates state).2 := by
  have ended := keeps.run fates
  split at ended
  next found => simp_all
  next found => simp_all

theorem Keeps.finish {script : Script ω β α} {fate : φ}
    (keeps : script.Keeps outcome (fun _ met _ => met = fate) always post state) :
    post (script.finish outcome fate state).1 (script.finish outcome fate state).2 := by
  induction script generalizing state with
  | done value => exact keeps
  | act op next ih => exact ih _ (keeps.2 fate rfl)

end Rules

end Script

end SubConverter
