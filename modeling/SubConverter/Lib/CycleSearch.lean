import Mathlib.Data.List.Basic
import Mathlib.Data.List.Count
import Mathlib.Logic.Relation
import Mathlib.Logic.Function.Basic

set_option autoImplicit false

namespace SubConverter

section CycleSearch

variable {Name : Type} [DecidableEq Name]

inductive Visit where
  | fresh
  | active
  | finished
deriving DecidableEq, Repr

def searchAll (search : Name → (Name → Visit) → Option (Bool × (Name → Visit))) :
    List Name → (Name → Visit) → Option (Bool × (Name → Visit))
  | [], visits => some (false, visits)
  | name :: rest, visits =>
    match search name visits with
    | some (false, visits) => searchAll search rest visits
    | other => other

/-- Whether a cycle is reached from a name by depth-first search; nothing when the rounds run out. -/
def hasCycle (edges : Name → List Name) : Nat → Name → (Name → Visit) → Option (Bool × (Name → Visit))
  | 0, _, _ => none
  | rounds + 1, name, visits =>
    match visits name with
    | .active => some (true, visits)
    | .finished => some (false, visits)
    | .fresh =>
      match searchAll (hasCycle edges rounds) (edges name) (Function.update visits name .active) with
      | some (false, visits) => some (false, Function.update visits name .finished)
      | other => other

def findCycle (edges : Name → List Name) (rounds : Nat) (names : List Name) : Option Bool :=
  (searchAll (hasCycle edges rounds) names fun _ => .fresh).map Prod.fst

variable {edges : Name → List Name} {visits visits' : Name → Visit}

section Acyclic

def Topological (edges : Name → List Name) : List Name → Prop
  | [] => True
  | name :: rest => (∀ child ∈ edges name, child ∈ rest) ∧ name ∉ rest ∧ Topological edges rest

def Leads (edges : Name → List Name) (name child : Name) : Prop := child ∈ edges name

omit [DecidableEq Name] in
theorem Topological.closed {order : List Name} (sorted : Topological edges order) {name child : Name} (known : name ∈ order)
    (path : Relation.TransGen (Leads edges) name child) : child ∈ order := by
  induction order generalizing name with
  | nil => exact absurd known List.not_mem_nil
  | cons first rest ih =>
    obtain ⟨children, _, later⟩ := sorted
    have stays : ∀ {one : Name}, one ∈ rest → Relation.TransGen (Leads edges) one child → child ∈ rest := ih later
    rcases List.mem_cons.mp known with rfl | inside
    · rcases Relation.TransGen.head'_iff.mp path with ⟨next, edge, onward⟩
      rcases Relation.reflTransGen_iff_eq_or_transGen.mp onward with rfl | further
      · exact List.mem_cons_of_mem _ (children child edge)
      · exact List.mem_cons_of_mem _ (stays (children next edge) further)
    · exact List.mem_cons_of_mem _ (stays inside path)

omit [DecidableEq Name] in
theorem Topological.acyclic {order : List Name} (sorted : Topological edges order) {name : Name} (known : name ∈ order) :
    ¬Relation.TransGen (Leads edges) name name := by
  induction order with
  | nil => exact absurd known List.not_mem_nil
  | cons first rest ih =>
    obtain ⟨children, new, later⟩ := sorted
    rcases List.mem_cons.mp known with rfl | inside
    · intro cycle
      rcases Relation.TransGen.head'_iff.mp cycle with ⟨next, edge, onward⟩
      rcases Relation.reflTransGen_iff_eq_or_transGen.mp onward with rfl | further
      · exact new (children _ edge)
      · exact new (later.closed (children next edge) further)
    · exact ih later inside

structure Finishes (edges : Name → List Name) (visits : Name → Visit) (order : List Name) : Prop where
  finished : ∀ name, visits name = .finished ↔ name ∈ order
  sorted : Topological edges order

/-- What a search that finds nothing leaves behind. -/
structure Explored (edges : Name → List Name) (names : List Name) (visits : Name → Visit) (order : List Name)
    (visits' : Name → Visit) (order' : List Name) : Prop where
  finishes : Finishes edges visits' order'
  grows : order ⊆ order'
  reached : names ⊆ order'
  active : ∀ name, visits' name = .active ↔ visits name = .active

def Explores (edges : Name → List Name) (search : Name → (Name → Visit) → Option (Bool × (Name → Visit))) : Prop :=
  ∀ {name visits order visits'}, Finishes edges visits order → search name visits = some (false, visits') →
    ∃ order', Explored edges [name] visits order visits' order'

omit [DecidableEq Name] in
theorem Explores.searchAll {search : Name → (Name → Visit) → Option (Bool × (Name → Visit))} (explores : Explores edges search)
    {names order : List Name} (before : Finishes edges visits order) (nothing : searchAll search names visits = some (false, visits')) :
    ∃ order', Explored edges names visits order visits' order' := by
  induction names generalizing visits order with
  | nil =>
    obtain rfl : visits = visits' := by simpa [SubConverter.searchAll] using nothing
    exact ⟨order, before, List.Subset.refl _, List.nil_subset _, fun _ => Iff.rfl⟩
  | cons name rest ih =>
    rw [SubConverter.searchAll] at nothing
    cases step : search name visits with
    | none => simp [step] at nothing
    | some result =>
      obtain ⟨found, between⟩ := result
      cases found with
      | true => simp [step] at nothing
      | false =>
        simp only [step] at nothing
        obtain ⟨order₁, first⟩ := explores before step
        obtain ⟨order₂, others⟩ := ih first.finishes nothing
        refine ⟨order₂, others.finishes, List.Subset.trans first.grows others.grows, ?_, fun other => (others.active other).trans (first.active other)⟩
        have here : name ∈ order₂ := others.grows (first.reached List.mem_cons_self)
        exact List.cons_subset.mpr ⟨here, others.reached⟩

theorem explores_hasCycle (rounds : Nat) : Explores edges (hasCycle edges rounds) := by
  induction rounds with
  | zero =>
    intro name visits order visits' _ nothing
    simp [hasCycle] at nothing
  | succ rounds ih =>
    intro name visits order visits' before nothing
    rw [hasCycle] at nothing
    cases mark : visits name with
    | active => simp [mark] at nothing
    | finished =>
      obtain rfl : visits = visits' := by simpa [mark] using nothing
      have known : name ∈ order := (before.finished name).mp mark
      exact ⟨order, before, List.Subset.refl _, by simpa using known, fun _ => Iff.rfl⟩
    | fresh =>
      simp only [mark] at nothing
      have unknown : name ∉ order := fun known => by simp [(before.finished name).mpr known] at mark
      have opened : Finishes edges (Function.update visits name .active) order := by
        constructor
        · intro other
          by_cases same : other = name
          · simp [same, unknown]
          · rw [Function.update_of_ne same, before.finished]
        · exact before.sorted
      cases below : searchAll (hasCycle edges rounds) (edges name) (Function.update visits name .active) with
      | none => simp [below] at nothing
      | some result =>
        obtain ⟨found, between⟩ := result
        cases found with
        | true => simp [below] at nothing
        | false =>
          obtain rfl : Function.update between name .finished = visits' := by simpa [below] using nothing
          obtain ⟨order', explored⟩ := ih.searchAll opened below
          have open' : between name = .active := (explored.active name).mpr (Function.update_self ..)
          have new : name ∉ order' := fun known => by simp [(explored.finishes.finished name).mpr known] at open'
          refine ⟨name :: order', ⟨?_, explored.reached, new, explored.finishes.sorted⟩, ?_, by simp, ?_⟩
          · intro other
            by_cases same : other = name
            · simp [same]
            · simp [explored.finishes.finished, same]
          · exact List.subset_cons_of_subset name explored.grows
          · intro other
            by_cases same : other = name
            · simp [same, mark]
            · rw [Function.update_of_ne same, explored.active, Function.update_of_ne same]

theorem acyclic_of_findCycle {rounds : Nat} {names : List Name} (nothing : findCycle edges rounds names = some false)
    {name : Name} (member : name ∈ names) : ¬Relation.TransGen (Leads edges) name name := by
  obtain ⟨⟨found, after⟩, searched, rfl⟩ := Option.map_eq_some_iff.mp nothing
  have start : Finishes edges (fun _ : Name => Visit.fresh) [] := ⟨by simp, trivial⟩
  have explores : Explores edges (hasCycle edges rounds) := explores_hasCycle rounds
  obtain ⟨order, explored⟩ := explores.searchAll start searched
  exact explored.finishes.sorted.acyclic (explored.reached member)

end Acyclic

section Total

def unseen (names : List Name) (visits : Name → Visit) : Nat := names.countP fun name => visits name = .fresh

def Shrinks (visits visits' : Name → Visit) : Prop := ∀ name, visits' name = .fresh → visits name = .fresh

omit [DecidableEq Name] in
theorem unseen_le_of_shrinks {names : List Name} (shrinks : Shrinks visits visits') : unseen names visits' ≤ unseen names visits :=
  List.countP_mono_left fun name _ unseen => by simpa using shrinks name (by simpa using unseen)

theorem unseen_update_lt {names : List Name} {name : Name} (member : name ∈ names) (mark : visits name = .fresh) :
    unseen names (Function.update visits name .active) < unseen names visits := by
  induction names with
  | nil => exact absurd member List.not_mem_nil
  | cons first rest ih =>
    have smaller : unseen rest (Function.update visits name .active) ≤ unseen rest visits := by
      apply unseen_le_of_shrinks
      intro other fresh
      by_cases same : other = name
      · simp [same] at fresh
      · simpa [same] using fresh
    by_cases same : first = name
    · simp only [unseen, List.countP_cons, same, Function.update_self, mark] at smaller ⊢
      simp
      omega
    · have inside : name ∈ rest := (List.mem_cons.mp member).resolve_left (Ne.symm same)
      have fewer := ih inside
      simp only [unseen, List.countP_cons, Function.update_of_ne same] at fewer ⊢
      omega

def Ends (names : List Name) (bound : Nat) (search : Name → (Name → Visit) → Option (Bool × (Name → Visit))) : Prop :=
  ∀ {name visits}, name ∈ names → unseen names visits < bound →
    ∃ found visits', search name visits = some (found, visits') ∧ Shrinks visits visits'

omit [DecidableEq Name] in
theorem Ends.searchAll {names asked : List Name} {bound : Nat} {search : Name → (Name → Visit) → Option (Bool × (Name → Visit))}
    (ends : Ends names bound search) (within : asked ⊆ names) (few : unseen names visits < bound) :
    ∃ found visits', searchAll search asked visits = some (found, visits') ∧ Shrinks visits visits' := by
  induction asked generalizing visits with
  | nil => exact ⟨false, visits, rfl, fun _ fresh => fresh⟩
  | cons name rest ih =>
    obtain ⟨here, others⟩ := List.cons_subset.mp within
    obtain ⟨found, between, step, shrinks⟩ := ends here few
    cases found with
    | true => exact ⟨true, between, by rw [SubConverter.searchAll, step], shrinks⟩
    | false =>
      obtain ⟨found, after, run, further⟩ := ih others (Nat.lt_of_le_of_lt (unseen_le_of_shrinks shrinks) few)
      exact ⟨found, after, by simp [SubConverter.searchAll, step, run], fun other fresh => shrinks other (further other fresh)⟩

theorem ends_hasCycle {names : List Name} (closed : ∀ name ∈ names, edges name ⊆ names) (rounds : Nat) :
    Ends names rounds (hasCycle edges rounds) := by
  induction rounds with
  | zero =>
    intro name visits _ few
    exact absurd few (Nat.not_lt_zero _)
  | succ rounds ih =>
    intro name visits member few
    cases mark : visits name with
    | active => exact ⟨true, visits, by simp [hasCycle, mark], fun _ fresh => fresh⟩
    | finished => exact ⟨false, visits, by simp [hasCycle, mark], fun _ fresh => fresh⟩
    | fresh =>
      have fewer : unseen names (Function.update visits name .active) < rounds :=
        Nat.lt_of_lt_of_le (unseen_update_lt member mark) (Nat.lt_succ_iff.mp few)
      obtain ⟨found, between, below, shrinks⟩ := ih.searchAll (closed name member) fewer
      have back : Shrinks visits between := by
        intro other fresh
        by_cases same : other = name
        · exact same ▸ mark
        · simpa [same] using shrinks other fresh
      cases found with
      | true => exact ⟨true, between, by simp [hasCycle, mark, below], back⟩
      | false =>
        refine ⟨false, Function.update between name .finished, by simp [hasCycle, mark, below], ?_⟩
        intro other fresh
        by_cases same : other = name
        · exact same ▸ mark
        · exact back other (by rwa [Function.update_of_ne same] at fresh)

theorem findCycle_ends {names : List Name} (closed : ∀ name ∈ names, edges name ⊆ names) :
    ∃ found, findCycle edges (names.length + 1) names = some found := by
  have few : unseen names (fun _ => Visit.fresh) < names.length + 1 := Nat.lt_succ_iff.mpr List.countP_le_length
  have ends : Ends names (names.length + 1) (hasCycle edges (names.length + 1)) := ends_hasCycle closed _
  obtain ⟨found, after, searched, _⟩ := ends.searchAll (List.Subset.refl names) few
  exact ⟨found, by rw [findCycle, searched]; rfl⟩

end Total

end CycleSearch

end SubConverter
