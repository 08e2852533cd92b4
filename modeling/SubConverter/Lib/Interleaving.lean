import Mathlib.Tactic

set_option autoImplicit false

namespace SubConverter

section Runs

variable {State Action : Type} {step : State → Action → Option State} {state next final : State} {action : Action}
  {actions later : List Action}

/-- The state after the actions one by one; nothing when one of them is not enabled where it is taken. -/
def runSteps (step : State → Action → Option State) : State → List Action → Option State
  | state, [] => some state
  | state, action :: rest => (step state action).bind fun next => runSteps step next rest

theorem runSteps_keeps {Holds : State → Prop}
    (keeps : ∀ {state action next}, Holds state → step state action = some next → Holds next) (holds : Holds state)
    (ran : runSteps step state actions = some final) : Holds final := by
  induction actions generalizing state with
  | nil =>
    cases ran
    exact holds
  | cons action rest ih =>
    obtain ⟨next, stepped, rested⟩ := Option.bind_eq_some_iff.mp ran
    exact ih (keeps holds stepped) rested

theorem runSteps_length (size : State → Nat)
    (grows : ∀ {state action next}, step state action = some next → size next ≤ size state + 1)
    (ran : runSteps step state actions = some final) : size final ≤ size state + actions.length := by
  induction actions generalizing state with
  | nil =>
    cases ran
    exact Nat.le_refl _
  | cons action rest ih =>
    obtain ⟨next, stepped, rested⟩ := Option.bind_eq_some_iff.mp ran
    have one := grows stepped
    have others := ih rested
    rw [List.length_cons]
    omega

def StepsMeet (step : State → Action → Option State) (meets : State → Action → Prop) : State → List Action → Prop
  | _, [] => True
  | state, action :: rest => meets state action ∧ ∀ next, step state action = some next → StepsMeet step meets next rest

instance StepsMeet.decidable {meets : State → Action → Prop} [∀ state action, Decidable (meets state action)] :
    (state : State) → (actions : List Action) → Decidable (StepsMeet step meets state actions)
  | _, [] => isTrue trivial
  | state, action :: rest =>
    have : ∀ next, Decidable (StepsMeet step meets next rest) := fun next => decidable next rest
    inferInstanceAs (Decidable (meets state action ∧ ∀ next ∈ step state action, StepsMeet step meets next rest))

theorem StepsMeet.of_forall {meets : State → Action → Prop} (met : ∀ action ∈ actions, ∀ state, meets state action) :
    StepsMeet step meets state actions := by
  induction actions generalizing state with
  | nil => trivial
  | cons action rest ih =>
    exact ⟨met action List.mem_cons_self state, fun _ _ => ih fun later member => met later (List.mem_cons_of_mem _ member)⟩

theorem StepsMeet.imp {meets stronger : State → Action → Prop} (met : StepsMeet step meets state actions)
    (implies : ∀ action ∈ actions, ∀ state, meets state action → stronger state action) :
    StepsMeet step stronger state actions := by
  induction actions generalizing state with
  | nil => trivial
  | cons action rest ih =>
    exact ⟨implies action List.mem_cons_self state met.1, fun next stepped =>
      ih (met.2 next stepped) fun later member => implies later (List.mem_cons_of_mem _ member)⟩

theorem runSteps_keeps_meeting {meets : State → Action → Prop} {Holds : State → Prop}
    (keeps : ∀ {state action next}, Holds state → meets state action → step state action = some next → Holds next)
    (holds : Holds state) (met : StepsMeet step meets state actions) (ran : runSteps step state actions = some final) :
    Holds final := by
  induction actions generalizing state with
  | nil =>
    cases ran
    exact holds
  | cons action rest ih =>
    obtain ⟨next, stepped, rested⟩ := Option.bind_eq_some_iff.mp ran
    exact ih (keeps holds met.1 stepped) (met.2 next stepped) rested

end Runs

section Counters

def uint64Max : Nat := 2 ^ 64 - 1

def add64 (left right : Nat) : Nat := (left + right) % 2 ^ 64

def sub64 (left right : Nat) : Nat := (left + (2 ^ 64 - right % 2 ^ 64)) % 2 ^ 64

theorem add64_eq {left right : Nat} (fits : left + right < 2 ^ 64) : add64 left right = left + right :=
  Nat.mod_eq_of_lt fits

theorem sub64_eq {left right : Nat} (covered : right ≤ left) (fits : left < 2 ^ 64) : sub64 left right = left - right := by
  unfold sub64
  omega

end Counters

section Totals

variable {Part : Type} {parts : List Part} {index other : Nat} {part changed : Part} {amount : Part → Nat}

def total (amount : Part → Nat) (parts : List Part) : Nat := (parts.map amount).sum

@[simp] theorem total_nil : total amount [] = 0 := rfl

@[simp] theorem total_cons : total amount (part :: parts) = amount part + total amount parts := by
  simp [total]

@[simp] theorem total_append {rest : List Part} :
    total amount (parts ++ rest) = total amount parts + total amount rest := by
  simp [total]

theorem total_set (here : parts[index]? = some part) :
    total amount (parts.set index changed) + amount part = total amount parts + amount changed := by
  induction parts generalizing index with
  | nil => simp at here
  | cons first rest ih =>
    cases index with
    | zero =>
      cases here
      simp only [List.set_cons_zero, total_cons]
      omega
    | succ index =>
      have moved := ih here
      simp only [List.set_cons_succ, total_cons]
      omega

theorem total_eraseIdx (here : parts[index]? = some part) :
    total amount (parts.eraseIdx index) + amount part = total amount parts := by
  induction parts generalizing index with
  | nil => simp at here
  | cons first rest ih =>
    cases index with
    | zero =>
      cases here
      simp only [List.eraseIdx_cons_zero, total_cons]
      omega
    | succ index =>
      have moved := ih here
      simp only [List.eraseIdx_cons_succ, total_cons]
      omega

theorem le_total (here : parts[index]? = some part) : amount part ≤ total amount parts := by
  have moved := @total_eraseIdx _ _ _ _ amount here
  omega

theorem total_eq_zero_iff : total amount parts = 0 ↔ ∀ part ∈ parts, amount part = 0 := by
  induction parts with
  | nil => simp
  | cons first rest ih => simp [ih]

theorem total_congr {amount' : Part → Nat} (same : ∀ part ∈ parts, amount part = amount' part) :
    total amount parts = total amount' parts := by
  simp only [total, List.map_congr_left same]

theorem total_perm {others : List Part} (same : parts.Perm others) : total amount parts = total amount others :=
  (same.map amount).sum_eq

theorem total_toNat {marked : Part → Bool} : total (fun part => (marked part).toNat) parts = parts.countP marked := by
  induction parts with
  | nil => rfl
  | cons first rest ih =>
    rw [total_cons, ih, List.countP_cons]
    cases marked first <;> simp [Nat.add_comm]

theorem total_mono {amount' : Part → Nat} (smaller : ∀ part ∈ parts, amount part ≤ amount' part) :
    total amount parts ≤ total amount' parts := by
  induction parts with
  | nil => exact Nat.le_refl _
  | cons first rest ih =>
    have head := smaller first (by simp)
    have tail := ih fun part member => smaller part (List.mem_cons_of_mem _ member)
    simp only [total_cons]
    omega

theorem lookup_set (here : parts[index]? = some part) :
    (parts.set index changed)[other]? = if other = index then some changed else parts[other]? := by
  have inside : index < parts.length := (List.getElem?_eq_some_iff.mp here).1
  rw [List.getElem?_set]
  by_cases same : index = other
  · simp [← same, inside]
  · simp [same, Ne.symm same]

theorem lookup_concat :
    (parts ++ [part])[other]? = if other = parts.length then some part else parts[other]? := by
  rcases Nat.lt_trichotomy other parts.length with before | rfl | after
  · simp [List.getElem?_append_left before, Nat.ne_of_lt before]
  · simp
  · rw [if_neg (Nat.ne_of_gt after), List.getElem?_eq_none (by simpa using after), List.getElem?_eq_none (by omega)]

theorem forall_lookup_set {Fits : Nat → Part → Prop} (here : parts[index]? = some part) (fits : Fits index changed)
    (others : ∀ other part, other ≠ index → parts[other]? = some part → Fits other part) :
    ∀ other part, (parts.set index changed)[other]? = some part → Fits other part := by
  intro other part present
  rw [lookup_set here] at present
  by_cases same : other = index
  · subst same
    simp only [if_true, Option.some.injEq] at present
    exact present ▸ fits
  · exact others other part same (by simpa [same] using present)

theorem forall_lookup_concat {Fits : Nat → Part → Prop} (fits : Fits parts.length part)
    (others : ∀ other part, parts[other]? = some part → Fits other part) :
    ∀ other found, (parts ++ [part])[other]? = some found → Fits other found := by
  intro other found present
  rw [lookup_concat] at present
  by_cases last : other = parts.length
  · subst last
    simp only [if_true, Option.some.injEq] at present
    exact present ▸ fits
  · exact others other found (by simpa [last] using present)

theorem exists_mem_iff {Fits : Part → Prop} (here : parts[index]? = some part) :
    (∃ found ∈ parts, Fits found) ↔
      Fits part ∨ ∃ other found, other ≠ index ∧ parts[other]? = some found ∧ Fits found := by
  constructor
  · rintro ⟨found, member, fits⟩
    obtain ⟨other, there⟩ := List.mem_iff_getElem?.mp member
    by_cases same : other = index
    · subst same
      rw [here] at there
      cases there
      exact .inl fits
    · exact .inr ⟨other, found, same, there, fits⟩
  · rintro (fits | ⟨other, found, _, there, fits⟩)
    · exact ⟨part, List.mem_of_getElem? here, fits⟩
    · exact ⟨found, List.mem_of_getElem? there, fits⟩

theorem exists_mem_set_iff {Fits : Part → Prop} (here : parts[index]? = some part) :
    (∃ found ∈ parts.set index changed, Fits found) ↔
      Fits changed ∨ ∃ other found, other ≠ index ∧ parts[other]? = some found ∧ Fits found := by
  have there : (parts.set index changed)[index]? = some changed := by simp [lookup_set here]
  rw [exists_mem_iff there]
  apply or_congr Iff.rfl
  apply exists_congr
  intro other
  apply exists_congr
  intro found
  apply and_congr_right
  intro apart
  simp [lookup_set here, apart]

end Totals

end SubConverter
