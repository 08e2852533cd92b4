import SubConverter.Updater.Install

set_option autoImplicit false

namespace SubConverter.Updater

structure Marks where
  moved : Bool := false
  late : Bool := false
  stuck : Bool := false
  unrestored : Bool := false
  kept : Bool := false
  unkept : Bool := false
  deriving DecidableEq, Repr

-- The root path is left empty.
def Marks.lost (marks : Marks) : Bool := marks.stuck && marks.unrestored

structure Summary where
  marks : Site → Marks := fun _ => {}
  refused : Bool := false
  cleaned : Bool := false

namespace Summary

def mark (summary : Summary) (site : Site) (marks : Marks) : Summary :=
  { summary with marks := Function.update summary.marks site marks }

def note (summary : Summary) : Step × Bool → Summary
  | (.op (.exchange _ site), true) => summary.mark site { summary.marks site with moved := true }
  | (.op (.syncParent _ site), false) => summary.mark site { summary.marks site with late := true }
  | (.op (.rename (.counterpart _) .root site), true) => summary.mark site { summary.marks site with moved := true }
  | (.op (.rename (.counterpart _) .root site), false) => summary.mark site { summary.marks site with stuck := true }
  | (.op (.rename (.exchangeOld _) .root site), false) =>
    summary.mark site { summary.marks site with unrestored := true }
  | (.op (.rename (.exchangeOld _) (.counterpart _) site), true) =>
    summary.mark site { summary.marks site with kept := true }
  | (.op (.rename (.exchangeOld _) (.counterpart _) site), false) =>
    summary.mark site { summary.marks site with unkept := true }
  | (.op (.validateRuntime .root), false) => { summary with refused := true }
  | (.op (.removeStaging .cleanUp), true) => { summary with cleaned := true }
  | _ => summary

@[simp] theorem mark_mark (summary : Summary) (site : Site) (first second : Marks) :
    (summary.mark site first).mark site second = summary.mark site second := by
  simp [mark]

@[simp] theorem marks_mark (summary : Summary) (site : Site) (marks : Marks) :
    (summary.mark site marks).marks site = marks := by
  simp [mark]

theorem mark_self (summary : Summary) (site : Site) : summary.mark site (summary.marks site) = summary := by
  simp [mark]

end Summary

def Layout.summary (layout : Layout) : Summary := layout.log.foldr (fun entry summary => summary.note entry) {}

@[simp] theorem Layout.summary_record (layout : Layout) (step : Step) (good : Bool) :
    (layout.record step good).summary = layout.summary.note (step, good) := rfl

@[simp] theorem Layout.summary_put (layout : Layout) (place : Place) (directory : Option Nat) :
    (layout.put place directory).summary = layout.summary := rfl

@[simp] theorem Layout.directories_record (layout : Layout) (step : Step) (good : Bool) :
    (layout.record step good).directories = layout.directories := rfl

@[simp] theorem Layout.directories_put (layout : Layout) (place other : Place) (directory : Option Nat) :
    (layout.put place directory).directories other = if other = place then directory else layout.directories other :=
  Function.update_apply ..

section Rules

variable (info : Nat → BuildInfo) (release : BuildInfo) {α : Type}

abbrev Holds (always : Layout → Prop) (post : α → Layout → Prop) (script : UpdaterScript α) (layout : Layout) :
    Prop :=
  script.Keeps (Step.outcome info release) (fun _ _ _ => True) always post layout

variable {info release} {always : Layout → Prop} {layout : Layout}

theorem perform_holds {op : Op} {post : Bool → Layout → Prop} (start : always layout)
    (after : ∀ good,
      post (op.effect good layout).1 ((op.effect good layout).2.record (.op op) (op.effect good layout).1)) :
    Holds info release always post (perform op) layout := ⟨start, fun good _ => after good⟩

theorem look_holds {op : Op} {post : Bool → Layout → Prop}
    (same : ∀ good, (op.effect good layout).2 = layout) (start : always layout)
    (after : ∀ good, post (op.effect good layout).1 (layout.record (.op op) (op.effect good layout).1)) :
    Holds info release always post (perform op) layout := by
  refine perform_holds start fun good => ?_
  rw [same]
  exact after good

theorem ite_holds {test : Prop} [Decidable test] {post : α → Layout → Prop} {first second : UpdaterScript α}
    (yes : test → Holds info release always post first layout)
    (no : ¬test → Holds info release always post second layout) :
    Holds info release always post (if test then first else second) layout := by
  split
  next holds => exact yes holds
  next fails => exact no fails

theorem allOf_nil_holds {post : Bool → Layout → Prop} (after : post true layout) :
    Holds info release always post (allOf []) layout := after

theorem allOf_cons_holds {op : Op} {rest : List Op} {post : Bool → Layout → Prop} (start : always layout)
    (failed : ∀ good, (op.effect good layout).1 = false →
      post false ((op.effect good layout).2.record (.op op) false))
    (performed : ∀ good, (op.effect good layout).1 = true →
      Holds info release always post (allOf rest) ((op.effect good layout).2.record (.op op) true)) :
    Holds info release always post (allOf (op :: rest)) layout := by
  refine Script.Keeps.bind (perform_holds start fun good => ?_)
  cases result : (op.effect good layout).1 with
  | true => exact performed good result
  | false => exact failed good result

theorem allOf_look_holds {op : Op} {rest : List Op} {post : Bool → Layout → Prop}
    (same : ∀ good, (op.effect good layout).2 = layout) (start : always layout)
    (failed : post false (layout.record (.op op) false))
    (performed : ∀ good, (op.effect good layout).1 = true →
      Holds info release always post (allOf rest) (layout.record (.op op) true)) :
    Holds info release always post (allOf (op :: rest)) layout := by
  refine allOf_cons_holds start (fun good _ => ?_) fun good done => ?_
  · rw [same]
    exact failed
  · rw [same]
    exact performed good done

end Rules

/-- The root, its counterpart and the exchange path hold these directories, and nothing else has changed
since `start` but the log. -/
structure Arranged (start : Layout) (right : Counterpart) (root other aside : Option Nat) (layout : Layout) :
    Prop where
  root : layout.directories .root = root
  other : layout.directories (.counterpart right) = other
  aside : layout.directories (.exchangeOld right) = aside
  elsewhere : ∀ place, place ≠ .root → place ≠ .counterpart right → place ≠ .exchangeOld right →
    layout.directories place = start.directories place
  pending : layout.pending = start.pending
  made : layout.made = start.made
  parties : layout.parties = start.parties
  passed : layout.passed = start.passed

namespace Arranged

variable {start layout : Layout} {right : Counterpart} {root other aside : Option Nat}

theorem record (arranged : Arranged start right root other aside layout) (step : Step) (good : Bool) :
    Arranged start right root other aside (layout.record step good) :=
  ⟨arranged.root, arranged.other, arranged.aside, arranged.elsewhere, arranged.pending, arranged.made,
    arranged.parties, arranged.passed⟩

theorem refl {start : Layout} {right : Counterpart} : Arranged start right (start.directories .root)
    (start.directories (.counterpart right)) (start.directories (.exchangeOld right)) start :=
  ⟨rfl, rfl, rfl, fun _ _ _ _ => rfl, rfl, rfl, rfl, rfl⟩

theorem put_root (arranged : Arranged start right root other aside layout) (directory : Option Nat) :
    Arranged start right directory other aside (layout.put .root directory) where
  root := by simp [Layout.put]
  other := by simpa [Layout.put] using arranged.other
  aside := by simpa [Layout.put] using arranged.aside
  elsewhere place notRoot notOther notAside := by
    simpa [Layout.put, Function.update_of_ne notRoot] using arranged.elsewhere place notRoot notOther notAside
  pending := arranged.pending
  made := arranged.made
  parties := arranged.parties
  passed := arranged.passed

theorem put_other (arranged : Arranged start right root other aside layout) (directory : Option Nat) :
    Arranged start right root directory aside (layout.put (.counterpart right) directory) where
  root := by simpa [Layout.put] using arranged.root
  other := by simp [Layout.put]
  aside := by simpa [Layout.put] using arranged.aside
  elsewhere place notRoot notOther notAside := by
    simpa [Layout.put, Function.update_of_ne notOther] using arranged.elsewhere place notRoot notOther notAside
  pending := arranged.pending
  made := arranged.made
  parties := arranged.parties
  passed := arranged.passed

theorem put_aside (arranged : Arranged start right root other aside layout) (directory : Option Nat) :
    Arranged start right root other directory (layout.put (.exchangeOld right) directory) where
  root := by simpa [Layout.put] using arranged.root
  other := by simpa [Layout.put] using arranged.other
  aside := by simp [Layout.put]
  elsewhere place notRoot notOther notAside := by
    simpa [Layout.put, Function.update_of_ne notAside] using arranged.elsewhere place notRoot notOther notAside
  pending := arranged.pending
  made := arranged.made
  parties := arranged.parties
  passed := arranged.passed

theorem exchange (arranged : Arranged start right root other aside layout) :
    Arranged start right other root aside
      ((layout.put .root (layout.directories (.counterpart right))).put (.counterpart right)
        (layout.directories .root)) := by
  rw [arranged.other, arranged.root]
  exact (arranged.put_root other).put_other root

theorem root_to_aside (arranged : Arranged start right root other aside layout) :
    Arranged start right none other root
      ((layout.put (.exchangeOld right) (layout.directories .root)).put .root none) := by
  rw [arranged.root]
  exact (arranged.put_aside root).put_root none

theorem other_to_root (arranged : Arranged start right root other aside layout) :
    Arranged start right other none aside
      ((layout.put .root (layout.directories (.counterpart right))).put (.counterpart right) none) := by
  rw [arranged.other]
  exact (arranged.put_root other).put_other none

theorem aside_to_root (arranged : Arranged start right root other aside layout) :
    Arranged start right aside other none
      ((layout.put .root (layout.directories (.exchangeOld right))).put (.exchangeOld right) none) := by
  rw [arranged.aside]
  exact (arranged.put_root aside).put_aside none

theorem aside_to_other (arranged : Arranged start right root other aside layout) :
    Arranged start right root aside none
      ((layout.put (.counterpart right) (layout.directories (.exchangeOld right))).put (.exchangeOld right) none) := by
  rw [arranged.aside]
  exact (arranged.put_other aside).put_aside none

theorem holds_root (arranged : Arranged start right root other aside layout) :
    layout.holds .root = root.isSome := congrArg Option.isSome arranged.root

theorem holds_other (arranged : Arranged start right root other aside layout) :
    layout.holds (.counterpart right) = other.isSome := congrArg Option.isSome arranged.other

theorem holds_aside (arranged : Arranged start right root other aside layout) :
    layout.holds (.exchangeOld right) = aside.isSome := congrArg Option.isSome arranged.aside

end Arranged

inductive Transit (x y : Nat) : Option Nat → Option Nat → Option Nat → Prop where
  | before : Transit x y (some x) (some y) none
  | after : Transit x y (some y) (some x) none
  | lifted : Transit x y none (some y) (some x)
  | entered : Transit x y (some y) none (some x)

inductive Failure (x y : Nat) : Option Nat → Option Nat → Option Nat → Marks → Prop where
  | unchanged {marks : Marks} (kept : marks.moved = false) (found : marks.lost = false) (late : marks.late = false)
      (unkept : marks.unkept = false) : Failure x y (some x) (some y) none marks
  | late : Failure x y (some y) (some x) none { moved := true, late := true }
  | lost : Failure x y none (some y) (some x) { stuck := true, unrestored := true }
  | unkept : Failure x y (some y) none (some x) { moved := true, unkept := true }

section Swap

variable {info : Nat → BuildInfo} {release : BuildInfo} {always : Layout → Prop} {post : Bool → Layout → Prop}
  {start layout : Layout} {right : Counterpart} {site : Site} {x y : Nat}

theorem swap_linux_holds {aside : Option Nat} (arranged : Arranged start right (some x) (some y) aside layout)
    (blank : layout.summary.marks site = {})
    (stays : ∀ final, Arranged start right (some x) (some y) aside final → always final)
    (swaps : ∀ final, Arranged start right (some y) (some x) aside final → always final)
    (unchanged : ∀ final, Arranged start right (some x) (some y) aside final → final.summary = layout.summary →
      post false final)
    (late : ∀ final, Arranged start right (some y) (some x) aside final →
      final.summary = layout.summary.mark site { moved := true, late := true } → post false final)
    (swapped : ∀ final, Arranged start right (some y) (some x) aside final →
      final.summary = layout.summary.mark site { moved := true } → post true final) :
    Holds info release always post (atomicSwapDirectories .linux right site) layout := by
  refine allOf_look_holds (fun _ => rfl) (stays _ arranged) (unchanged _ (arranged.record _ _) rfl) fun _ _ => ?_
  have first := arranged.record (.op (.stat .root site)) true
  refine allOf_look_holds (fun _ => rfl) (stays _ first) (unchanged _ (first.record _ _) rfl) fun _ _ => ?_
  have second := first.record (.op (.stat (.counterpart right) site)) true
  refine allOf_cons_holds (stays _ second) (fun good failed => ?_) fun good performed => ?_
  · cases good with
    | false => exact unchanged _ (second.record _ _) rfl
    | true => simp [Op.effect, second.holds_root, second.holds_other] at failed
  cases good with
  | false => simp [Op.effect] at performed
  | true =>
    have moved := second.exchange.record (.op (.exchange right site)) true
    simp only [Op.effect, second.holds_root, second.holds_other, Option.isSome_some, true_and, if_true]
    refine allOf_look_holds (fun _ => rfl) (swaps _ moved) ?_ fun _ _ => ?_
    · exact late _ (moved.record _ _) (by simp [Summary.note, blank])
    have synced := moved.record (.op (.syncParent .root site)) true
    refine allOf_look_holds (fun _ => rfl) (swaps _ synced) ?_ fun _ _ => ?_
    · exact late _ (synced.record _ _) (by simp [Summary.note, blank])
    exact swapped _ (synced.record _ _) (by simp [Summary.note, blank])

theorem swap_windows_holds (arranged : Arranged start right (some x) (some y) none layout)
    (blank : layout.summary.marks site = {})
    (stays : ∀ final, Arranged start right (some x) (some y) none final → always final)
    (lifts : ∀ final, Arranged start right none (some y) (some x) final → always final)
    (moves : ∀ final, Arranged start right (some y) none (some x) final → always final)
    (unchanged : ∀ final marks, Arranged start right (some x) (some y) none final →
      final.summary = layout.summary.mark site marks → marks.moved = false → marks.lost = false →
      marks.late = false → marks.unkept = false → post false final)
    (lost : ∀ final, Arranged start right none (some y) (some x) final →
      final.summary = layout.summary.mark site { stuck := true, unrestored := true } → post false final)
    (unkept : ∀ final, Arranged start right (some y) none (some x) final →
      final.summary = layout.summary.mark site { moved := true, unkept := true } → post false final)
    (swapped : ∀ final, Arranged start right (some y) (some x) none final →
      final.summary = layout.summary.mark site { moved := true, kept := true } → post true final) :
    Holds info release always post (atomicSwapDirectories .windows right site) layout := by
  have untouched : layout.summary = layout.summary.mark site {} := by
    rw [← blank, Summary.mark_self]
  have blocked : ∀ final, Arranged start right (some x) (some y) none final → final.summary = layout.summary →
      post false final := fun final here same => unchanged final {} here (same.trans untouched) rfl rfl rfl rfl
  refine Script.Keeps.bind ?_
  refine allOf_look_holds (fun _ => rfl) (stays _ arranged) (blocked _ (arranged.record _ _) rfl) fun _ _ => ?_
  have first := arranged.record (.op (.stat .root site)) true
  refine allOf_look_holds (fun _ => rfl) (stays _ first) (blocked _ (first.record _ _) rfl) fun _ _ => ?_
  have second := first.record (.op (.stat (.counterpart right) site)) true
  refine allOf_look_holds (fun _ => rfl) (stays _ second) (blocked _ (second.record _ _) rfl) fun _ _ => ?_
  have third := second.record (.op (.executable site)) true
  refine allOf_look_holds (fun _ => rfl) (stays _ third) (blocked _ (third.record _ _) rfl) fun _ _ => ?_
  have fourth := third.record (.op (.absent (.exchangeOld right) site)) true
  refine allOf_cons_holds (stays _ fourth) (fun good failed => ?_) fun good performed => ?_
  · cases good with
    | false => exact blocked _ (fourth.record _ _) rfl
    | true => simp [Op.effect, fourth.holds_root, fourth.holds_aside] at failed
  cases good with
  | false => simp [Op.effect] at performed
  | true =>
    have lifted := fourth.root_to_aside.record (.op (.rename .root (.exchangeOld right) site)) true
    simp only [Op.effect, fourth.holds_root, fourth.holds_aside, Option.isSome_some, Option.isSome_none,
      Bool.false_eq_true, not_false_eq_true, and_self, if_true]
    refine allOf_nil_holds ?_
    refine Script.Keeps.bind (perform_holds (lifts _ lifted) fun good => ?_)
    cases good with
    | true =>
      have entered := lifted.other_to_root.record (.op (.rename (.counterpart right) .root site)) true
      simp only [Op.effect, lifted.holds_root, lifted.holds_other, Option.isSome_some, Option.isSome_none,
        Bool.false_eq_true, not_false_eq_true, and_self, if_true]
      refine perform_holds (moves _ entered) fun good => ?_
      cases good with
      | true =>
        have kept := entered.aside_to_other.record (.op (.rename (.exchangeOld right) (.counterpart right) site)) true
        simp only [Op.effect, entered.holds_aside, entered.holds_other, Option.isSome_some, Option.isSome_none,
          Bool.false_eq_true, not_false_eq_true, and_self, if_true]
        exact swapped _ kept (by simp [Summary.note, blank])
      | false => exact unkept _ (entered.record _ _) (by simp [Op.effect, Summary.note, blank])
    | false =>
      have stuck := lifted.record (.op (.rename (.counterpart right) .root site)) false
      refine Script.Keeps.bind (perform_holds (lifts _ stuck) fun good => ?_)
      cases good with
      | true =>
        have restored := stuck.aside_to_root.record (.op (.rename (.exchangeOld right) .root site)) true
        simp only [Op.effect, stuck.holds_aside, stuck.holds_root, Option.isSome_some, Option.isSome_none,
          Bool.false_eq_true, not_false_eq_true, and_self, if_true, if_false, false_and]
        exact unchanged _ { stuck := true } restored (by simp [Summary.note, blank]) rfl rfl rfl rfl
      | false => exact lost _ (stuck.record _ _) (by simp [Op.effect, Summary.note, blank])

theorem swap_holds (platform : Platform) (arranged : Arranged start right (some x) (some y) none layout)
    (blank : layout.summary.marks site = {})
    (passes : ∀ final root other aside, Transit x y root other aside → (platform = .linux → aside = none) →
      Arranged start right root other aside final → always final)
    (failed : ∀ final root other aside marks, Failure x y root other aside marks →
      (platform = .linux → aside = none) → Arranged start right root other aside final →
      final.summary = layout.summary.mark site marks → post false final)
    (swapped : ∀ final marks, Arranged start right (some y) (some x) none final →
      final.summary = layout.summary.mark site marks → marks.moved = true → post true final) :
    Holds info release always post (atomicSwapDirectories platform right site) layout := by
  cases platform with
  | linux =>
    refine swap_linux_holds arranged blank (passes · _ _ _ .before fun _ => rfl) (passes · _ _ _ .after fun _ => rfl) ?_
      (failed · _ _ _ _ .late fun _ => rfl) fun final here same => swapped final _ here same rfl
    intro final here same
    refine failed final _ _ _ {} (.unchanged rfl rfl rfl rfl) (fun _ => rfl) here ?_
    rw [same, ← blank, Summary.mark_self]
  | windows =>
    refine swap_windows_holds arranged blank (passes · _ _ _ .before nofun) (passes · _ _ _ .lifted nofun)
      (passes · _ _ _ .entered nofun) ?_ (failed · _ _ _ _ .lost nofun) (failed · _ _ _ _ .unkept nofun)
      fun final here same => swapped final _ here same rfl
    intro final marks here same kept found late unkept
    exact failed final _ _ _ marks (.unchanged kept found late unkept) nofun here same

theorem swap_blocked_holds {z : Nat} (arranged : Arranged start right (some x) (some y) (some z) layout)
    (stays : ∀ final, Arranged start right (some x) (some y) (some z) final → always final)
    (failed : ∀ final, Arranged start right (some x) (some y) (some z) final → final.summary = layout.summary →
      post false final) :
    Holds info release always post (atomicSwapDirectories .windows right site) layout := by
  refine Script.Keeps.bind ?_
  refine allOf_look_holds (fun _ => rfl) (stays _ arranged) (failed _ (arranged.record _ _) rfl) fun _ _ => ?_
  have first := arranged.record (.op (.stat .root site)) true
  refine allOf_look_holds (fun _ => rfl) (stays _ first) (failed _ (first.record _ _) rfl) fun _ _ => ?_
  have second := first.record (.op (.stat (.counterpart right) site)) true
  refine allOf_look_holds (fun _ => rfl) (stays _ second) (failed _ (second.record _ _) rfl) fun _ _ => ?_
  have third := second.record (.op (.executable site)) true
  refine allOf_look_holds (fun _ => rfl) (stays _ third) (failed _ (third.record _ _) rfl) fun good performed => ?_
  simp [Op.effect, third.holds_aside] at performed

end Swap

end SubConverter.Updater
