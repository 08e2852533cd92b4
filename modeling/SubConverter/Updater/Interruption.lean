import SubConverter.Updater.Calls

set_option autoImplicit false

namespace SubConverter.Updater

section Rules

variable (info : Nat → BuildInfo) (release : BuildInfo) {α : Type}

abbrev Goes (post : α → Layout → Prop) (script : UpdaterScript α) (layout : Layout) : Prop :=
  script.Keeps (Step.outcome info release) (fun _ good _ => good = true) (fun _ => True) post layout

variable {info release} {layout : Layout}

theorem perform_goes {op : Op} {post : Bool → Layout → Prop}
    (after : post (op.effect true layout).1 ((op.effect true layout).2.record (.op op) (op.effect true layout).1)) :
    Goes info release post (perform op) layout := by
  refine ⟨trivial, ?_⟩
  rintro _ rfl
  exact after

theorem allOf_nil_goes {post : Bool → Layout → Prop} (after : post true layout) :
    Goes info release post (allOf []) layout := after

theorem allOf_cons_goes {op : Op} {rest : List Op} {post : Bool → Layout → Prop} {next : Layout}
    (effect : op.effect true layout = (true, next))
    (after : Goes info release post (allOf rest) (next.record (.op op) true)) :
    Goes info release post (allOf (op :: rest)) layout := by
  refine Script.Keeps.bind (perform_goes ?_)
  rw [effect]
  exact after

theorem currentBuildInfo_goes {place : Place} {post : Option BuildInfo → Layout → Prop}
    (after : post ((layout.directories place).map info) (layout.record (.currentBuildInfo place) true)) :
    Goes info release post (currentBuildInfo place) layout := by
  refine ⟨trivial, ?_⟩
  rintro _ rfl
  exact after

end Rules

variable {platform : Platform} {info : Nat → BuildInfo} {release : BuildInfo} {tx : PendingTransaction} {o n x y : Nat}
  {start layout : Layout} {right : Counterpart} {site : Site} {root other aside : Option Nat}

theorem stat_effect {place : Place} (present : layout.holds place = true) :
    (Op.stat place site).effect true layout = (true, layout) := by
  simp [Op.effect, present]

theorem rename_effect {source target : Place} (present : layout.holds source = true)
    (absent : layout.holds target = false) :
    (Op.rename source target site).effect true layout =
      (true, (layout.put target (layout.directories source)).put source none) := by
  simp [Op.effect, present, absent]

theorem swap_goes {post : Bool → Layout → Prop} (arranged : Arranged start right (some x) (some y) none layout)
    (swapped : ∀ final, Arranged start right (some y) (some x) none final → post true final) :
    Goes info release post (atomicSwapDirectories platform right site) layout := by
  have first := arranged.record (.op (.stat .root site)) true
  have second := first.record (.op (.stat (.counterpart right) site)) true
  cases platform with
  | linux =>
    refine allOf_cons_goes (stat_effect arranged.holds_root) ?_
    refine allOf_cons_goes (stat_effect first.holds_other) ?_
    have moved := second.exchange.record (.op (.exchange right site)) true
    refine allOf_cons_goes (by simp [Op.effect, second.holds_root, second.holds_other]; rfl) ?_
    refine allOf_cons_goes rfl (allOf_cons_goes rfl (allOf_nil_goes ?_))
    exact swapped _ ((moved.record _ _).record _ _)
  | windows =>
    refine Script.Keeps.bind ?_
    refine allOf_cons_goes (stat_effect arranged.holds_root) ?_
    refine allOf_cons_goes (stat_effect first.holds_other) ?_
    have third := second.record (.op (.executable site)) true
    refine allOf_cons_goes rfl ?_
    have fourth := third.record (.op (.absent (.exchangeOld right) site)) true
    refine allOf_cons_goes (by simp [Op.effect, third.holds_aside]; rfl) ?_
    have lifted := fourth.root_to_aside.record (.op (.rename .root (.exchangeOld right) site)) true
    refine allOf_cons_goes (rename_effect fourth.holds_root fourth.holds_aside) (allOf_nil_goes ?_)
    have entered := lifted.other_to_root.record (.op (.rename (.counterpart right) .root site)) true
    refine Script.Keeps.bind (perform_goes ?_)
    rw [rename_effect lifted.holds_other lifted.holds_root]
    refine perform_goes ?_
    rw [rename_effect entered.holds_aside entered.holds_other]
    exact swapped _ (entered.aside_to_other.record _ _)

section Repair

variable {post : Bool → Layout → Prop}

theorem repair_looks_goes (arranged : Arranged start right root other aside layout)
    (after : ∀ final, Arranged start right root other aside final → Goes info release post
      (if !aside.isSome then pure true
      else if !root.isSome && other.isSome then
        allOf [.rename (.counterpart right) .root .repair, .rename (.exchangeOld right) (.counterpart right) .repair]
      else if root.isSome && !other.isSome then
        perform (.rename (.exchangeOld right) (.counterpart right) .repair)
      else pure false) final) :
    Goes info release post (repairInterruptedSwap .windows right) layout := by
  rw [← arranged.holds_root, ← arranged.holds_other, ← arranged.holds_aside] at after
  refine Script.Keeps.bind (perform_goes (Script.Keeps.bind (perform_goes (Script.Keeps.bind (perform_goes ?_)))))
  exact after _ (((arranged.record _ _).record _ _).record _ _)

theorem repair_settled_goes (arranged : Arranged start right root other none layout)
    (done : ∀ final, Arranged start right root other none final → post true final) :
    Goes info release post (repairInterruptedSwap platform right) layout := by
  cases platform with
  | linux => exact done layout arranged
  | windows => exact repair_looks_goes arranged done

theorem repair_blocked_goes {z : Nat} (arranged : Arranged start right (some x) (some y) (some z) layout)
    (done : ∀ final, post false final) :
    Goes info release post (repairInterruptedSwap .windows right) layout :=
  repair_looks_goes arranged fun final _ => done final

theorem repair_lifted_goes (arranged : Arranged start right none (some y) (some x) layout)
    (done : ∀ final, Arranged start right (some y) (some x) none final → post true final) :
    Goes info release post (repairInterruptedSwap .windows right) layout := by
  refine repair_looks_goes arranged fun final lifted => ?_
  have entered := lifted.other_to_root.record (.op (.rename (.counterpart right) .root .repair)) true
  refine allOf_cons_goes (rename_effect lifted.holds_other lifted.holds_root) ?_
  refine allOf_cons_goes (rename_effect entered.holds_aside entered.holds_other) (allOf_nil_goes ?_)
  exact done _ (entered.aside_to_other.record _ _)

theorem repair_entered_goes (arranged : Arranged start right (some y) none (some x) layout)
    (done : ∀ final, Arranged start right (some y) (some x) none final → post true final) :
    Goes info release post (repairInterruptedSwap .windows right) layout := by
  refine repair_looks_goes arranged fun final entered => perform_goes ?_
  rw [rename_effect entered.holds_aside entered.holds_other]
  exact done _ (entered.aside_to_other.record _ _)

end Repair

section Conclude

variable {post : Exit → Layout → Prop}

structure Completed (x y : Nat) (final : Layout) : Prop where
  unlisted : final.pending = none
  root : final.directories .root = some x
  kept : final.directories (.counterpart .rollback) = some y

theorem finish_goes (root : layout.directories .root = some x)
    (kept : layout.directories (.counterpart .rollback) = some y)
    (done : ∀ final, Completed x y final → post .changed final) :
    Goes info release post recover.finish layout :=
  Script.Keeps.bind (perform_goes (Script.Keeps.bind (perform_goes (done _ ⟨rfl, root, kept⟩))))

theorem finalize_goes {post : Bool → Layout → Prop} (root : layout.directories .root = some x)
    (other : layout.directories (.counterpart .candidate) = some y)
    (done : ∀ final, final.directories .root = some x → final.directories (.counterpart .rollback) = some y →
      post true final) :
    Goes info release post (finalizeAppliedRoot .candidate) layout := by
  refine allOf_cons_goes rfl (allOf_cons_goes rfl ?_)
  refine allOf_cons_goes (rename_effect ?_ ?_) (allOf_cons_goes rfl (allOf_nil_goes (done _ ?_ ?_)))
  · simp [Layout.holds, other]
  · simp [Layout.holds]
  · simpa using root
  · simpa using other

theorem conclude_goes (root : layout.directories .root = some x)
    (other : layout.directories (.counterpart tx.candidateRoot) = some y)
    (phase : tx.phase.isRollback = true ↔ tx.candidateRoot = .rollback)
    (done : ∀ final, Completed x y final → post .changed final) :
    Goes info release post (recover.conclude platform tx) layout := by
  have present : layout.holds .root = true := by simp [Layout.holds, root]
  refine Script.Keeps.bind (perform_goes ?_)
  simp only [Op.effect, present, and_self, if_true]
  by_cases back : tx.phase.isRollback = true
  · rw [phase.1 back] at other
    simp only [back, if_true]
    exact finish_goes root other done
  · have applied : tx.candidateRoot = .candidate := by
      cases staged : tx.candidateRoot with
      | candidate => rfl
      | rollback => exact absurd (phase.2 staged) back
    rw [applied] at other
    simp only [back, applied]
    refine Script.Keeps.bind (finalize_goes root other fun final rootIs kept => ?_)
    exact finish_goes rootIs kept done

end Conclude

section Recover

variable {post : Exit → Layout → Prop}

theorem reconcile_goes (here : Pending platform info tx o n start) (same : Same o n x y)
    (arranged : Arranged start tx.candidateRoot (some x) (some y) none layout)
    (done : ∀ x y final, Same o n x y → Completed x y final → post .changed final) :
    Goes info release post (do
      let rootInfo ← currentBuildInfo .root
      let candidateInfo ← currentBuildInfo (.counterpart tx.candidateRoot)
      let rootIsNew := rootInfo.any fun info => info.revision = tx.new.revision
      let rootIsOld := rootInfo.any fun info => info.revision = tx.old.revision
      let candidateIsNew := candidateInfo.any fun info => info.revision = tx.new.revision
      let candidateIsOld := candidateInfo.any fun info => info.revision = tx.old.revision
      if rootIsOld && candidateIsNew then
        if ← perform (.validateRuntime (.counterpart tx.candidateRoot)) then
          if ← atomicSwapDirectories platform tx.candidateRoot .resume then recover.conclude platform tx
          else pure .failed
        else pure .failed
      else if rootIsNew && candidateIsOld then recover.conclude platform tx
      else pure .failed) layout := by
  refine Script.Keeps.bind (currentBuildInfo_goes (Script.Keeps.bind (currentBuildInfo_goes ?_)))
  have seen := (arranged.record (.currentBuildInfo .root) true).record
    (.currentBuildInfo (.counterpart tx.candidateRoot)) true
  simp only [Layout.directories_record, arranged.root, arranged.other, Option.map_some, Option.any_some]
  split
  · have present : Layout.holds ((layout.record (.currentBuildInfo .root) true).record
        (.currentBuildInfo (.counterpart tx.candidateRoot)) true) (.counterpart tx.candidateRoot) = true :=
      seen.holds_other
    refine Script.Keeps.bind (perform_goes ?_)
    simp only [Op.effect, present, and_self, if_true, reduceCtorEq, if_false]
    refine Script.Keeps.bind (swap_goes (seen.record _ _) fun final swapped => ?_)
    exact conclude_goes swapped.root swapped.other here.phase fun last => done y x last same.symm
  · rename_i notOld
    rcases same with ⟨rfl, rfl⟩ | ⟨rfl, rfl⟩
    · simp [here.old, here.new] at notOld
    · simp only [here.old, here.new, decide_true, Bool.and_self, if_true]
      exact conclude_goes seen.root seen.other here.phase fun last => done _ _ last (.inr ⟨rfl, rfl⟩)

def Resumable (right : Counterpart) (layout : Layout) : Prop :=
  if layout.holds (.exchangeOld right) then layout.holds .root ≠ layout.holds (.counterpart right)
  else layout.holds .root = true ∧ layout.holds (.counterpart right) = true

theorem Arranged.resumable (arranged : Arranged layout right root other aside layout) : Resumable right layout ↔
    if aside.isSome then root.isSome ≠ other.isSome else root.isSome = true ∧ other.isSome = true := by
  simp only [Resumable, arranged.holds_root, arranged.holds_other, arranged.holds_aside]

inductive Resumed (right : Counterpart) (o n : Nat) (start : Layout) : Exit → Layout → Prop where
  | completed {x y : Nat} {final : Layout} (recognised : Resumable right start) (same : Same o n x y)
      (completed : Completed x y final) : Resumed right o n start .changed final
  | refused {final : Layout} (unrecognised : ¬Resumable right start) : Resumed right o n start .failed final

theorem recover_pending_goes (here : Pending platform info tx o n layout)
    (done : ∀ exit final, Resumed tx.candidateRoot o n layout exit final → post exit final) :
    Goes info release post (recover platform) layout := by
  have arranged : Arranged layout tx.candidateRoot _ _ _ layout := Arranged.refl
  have placed := here.placed
  generalize layout.directories .root = root at arranged placed
  generalize layout.directories (.counterpart tx.candidateRoot) = other at arranged placed
  generalize layout.directories (.exchangeOld tx.candidateRoot) = aside at arranged placed
  have resumable := arranged.resumable
  refine Script.Keeps.bind ⟨trivial, ?_⟩
  rintro _ rfl
  simp only [Step.outcome, here.pending]
  have read := arranged.record .readPending true
  have reconciles : ∀ middle x y, Same o n x y → Resumable tx.candidateRoot layout →
      Arranged layout tx.candidateRoot (some x) (some y) none middle → Goes info release post _ middle :=
    fun middle x y same recognised settled => reconcile_goes here same settled fun x y final same completed =>
      done _ final (.completed recognised same completed)
  cases placed with
  | transit same stage plain =>
    cases stage with
    | before =>
      exact Script.Keeps.bind (repair_settled_goes read fun middle => reconciles middle _ _ same (by simp [resumable]))
    | after =>
      exact Script.Keeps.bind
        (repair_settled_goes read fun middle => reconciles middle _ _ same.symm (by simp [resumable]))
    | lifted =>
      cases platform with
      | linux => cases plain rfl
      | windows =>
        exact Script.Keeps.bind
          (repair_lifted_goes read fun middle => reconciles middle _ _ same.symm (by simp [resumable]))
    | entered =>
      cases platform with
      | linux => cases plain rfl
      | windows =>
        exact Script.Keeps.bind
          (repair_entered_goes read fun middle => reconciles middle _ _ same.symm (by simp [resumable]))
  | retained same staged kept =>
    refine Script.Keeps.bind (repair_settled_goes read fun middle settled => ?_)
    refine Script.Keeps.bind (currentBuildInfo_goes (Script.Keeps.bind (currentBuildInfo_goes ?_)))
    simp only [Layout.directories_record, settled.root, settled.other, Option.map_none, Option.any_none, Bool.and_false,
      Bool.false_eq_true, if_false]
    exact done _ _ (.refused (by simp [resumable]))
  | blocked same kept windows =>
    subst windows
    exact Script.Keeps.bind (repair_blocked_goes read fun final => done _ final (.refused (by simp [resumable])))

end Recover

-- The stopped run has itself removed a pending file.
def Layout.dismissed (layout : Layout) : Bool := (Step.op .removePending, true) ∈ layout.log

/-- The call returns without an error and leaves no pending file. The transaction of the stopped run is over: one of
its installations is the root, and the other one is there to go back to. A run that was stopped before it wrote a
transaction down has none. -/
def Recovered (start : Layout) (exit : Exit) (final : Layout) : Prop :=
  exit ≠ .failed ∧ final.pending = none ∧
    if start.pending = none ∧ start.dismissed = false then final.holds .root = true
    else final.Retains start.parties

def Recognisable (layout : Layout) : Prop :=
  match layout.pending with
  | none => if layout.dismissed then layout.Retained else layout.holds .root = true
  | some tx => Resumable tx.candidateRoot layout

def finishCall (platform : Platform) (info : Nat → BuildInfo) (release : BuildInfo) (call : Call) (layout : Layout) :
    Exit × Layout :=
  (call.script platform).finish (Step.outcome info release) true layout.begin

def Quiet (platform : Platform) (info : Nat → BuildInfo) (release : BuildInfo) (layout : Layout) : Prop :=
  (finishCall platform info release .recover layout).1 = .unchanged ∧
    (finishCall platform info release .recover layout).2.directories = layout.directories ∧
    (finishCall platform info release .recover layout).2.pending = layout.pending

def Settles (platform : Platform) (info : Nat → BuildInfo) (release : BuildInfo) (start : Layout)
    (result : Exit × Layout) : Prop :=
  Recovered start result.1 result.2 ∧ Quiet platform info release result.2

/-- From this layout on, if no step fails, one call settles the pending transaction, and a second `recover` changes
nothing. Without a pending transaction only `recover` itself is such a call. -/
def Recovers (platform : Platform) (info : Nat → BuildInfo) (release : BuildInfo) (layout : Layout) : Prop :=
  ∀ call, (layout.pending = none → call = .recover) →
    Settles platform info release layout (finishCall platform info release call layout)

theorem recover_unlisted (unlisted : layout.pending = none) :
    finishCall platform info release .recover layout = (.unchanged, layout.begin.record .readPending true) := by
  have begun : layout.begin.pending = none := unlisted
  have goes : Goes info release (fun exit final => (exit, final) = (.unchanged, layout.begin.record .readPending true))
      (recover platform) layout.begin := by
    refine Script.Keeps.bind ⟨trivial, ?_⟩
    rintro _ rfl
    simp only [Step.outcome, begun]
    rfl
  exact goes.finish

theorem Resumed.congr {exit : Exit} {final : Layout} (resumed : Resumed right o n layout exit final)
    (same : Resumable right layout ↔ Resumable right start) : Resumed right o n start exit final := by
  cases resumed with
  | completed recognised parties completed => exact .completed (same.1 recognised) parties completed
  | refused unrecognised => exact .refused (mt same.2 unrecognised)

theorem call_pending_goes {post : Exit → Layout → Prop} (here : Pending platform info tx o n layout) (call : Call)
    (done : ∀ exit final, Resumed tx.candidateRoot o n layout exit final → post exit final) :
    Goes info release post (call.script platform) layout := by
  have stat := here.record .statPending true
  have again : Goes info release post (recover platform) (layout.record .statPending true) :=
    recover_pending_goes stat fun exit final resumed => done exit final (resumed.congr Iff.rfl)
  cases call with
  | recover => exact recover_pending_goes here done
  | apply =>
    refine Script.Keeps.bind ⟨trivial, ?_⟩
    rintro _ rfl
    simp only [Step.outcome, here.pending]
    exact again
  | rollback =>
    refine Script.Keeps.bind ⟨trivial, ?_⟩
    rintro _ rfl
    simp only [Step.outcome, here.pending]
    exact again

theorem call_pending (release : BuildInfo) (here : Pending platform info tx o n layout) (call : Call) :
    Resumed tx.candidateRoot o n layout (finishCall platform info release call layout).1
      (finishCall platform info release call layout).2 := by
  have begun : Pending platform info tx o n layout.begin := here.congr rfl rfl rfl
  have goes : Goes info release (Resumed tx.candidateRoot o n layout) (call.script platform) layout.begin :=
    call_pending_goes begun call fun exit final resumed => resumed.congr Iff.rfl
  exact goes.finish

theorem quiet_unlisted (unlisted : layout.pending = none) : Quiet platform info release layout := by
  rw [Quiet, recover_unlisted unlisted]
  exact ⟨rfl, rfl, rfl⟩

theorem recovers_unlisted (listed : layout.pending = none) :
    Recovers platform info release layout ↔ Recognisable layout := by
  have first : finishCall platform info release .recover layout = (.unchanged, layout.begin.record .readPending true) :=
    recover_unlisted listed
  have settled : (if layout.pending = none ∧ layout.dismissed = false then
      (layout.begin.record .readPending true).holds .root = true
      else (layout.begin.record .readPending true).Retains layout.parties) ↔ Recognisable layout := by
    cases dismissed : layout.dismissed <;> simp only [Recognisable, listed, dismissed] <;> exact Iff.rfl
  constructor
  · intro recovers
    have recovered := (recovers .recover fun _ => rfl).1
    rw [first] at recovered
    exact settled.1 recovered.2.2
  · intro recognised call isRecover
    obtain rfl := isRecover listed
    rw [first]
    exact ⟨⟨by simp, listed, settled.2 recognised⟩, quiet_unlisted listed⟩

theorem recovers_pending (here : Pending platform info tx o n layout) :
    Recovers platform info release layout ↔ Recognisable layout := by
  have recognisable : Recognisable layout ↔ Resumable tx.candidateRoot layout := by
    rw [Recognisable, here.pending]
  rw [recognisable]
  constructor
  · intro recovers
    have settles := recovers .recover (by simp [here.pending])
    have resumed := call_pending release here .recover
    generalize finishCall platform info release .recover layout = result at resumed settles
    obtain ⟨exit, final⟩ := result
    cases resumed with
    | completed recognised => exact recognised
    | refused => exact absurd rfl settles.1.1
  · intro recognised call _
    have resumed := call_pending release here call
    generalize finishCall platform info release call layout = result at resumed ⊢
    obtain ⟨exit, final⟩ := result
    cases resumed with
    | refused unrecognised => exact absurd recognised unrecognised
    | completed recognised same completed =>
      refine ⟨⟨by simp, completed.unlisted, ?_⟩, quiet_unlisted completed.unlisted⟩
      rw [if_neg (by simp [here.pending]), here.parties]
      refine ⟨_, _, ?_, completed.root, completed.kept⟩
      rcases same with ⟨rfl, rfl⟩ | ⟨rfl, rfl⟩
      · exact .inl rfl
      · exact .inr rfl

theorem Layout.Retained.recognisable (retained : layout.Retained) (unlisted : layout.pending = none) :
    Recognisable layout := by
  rw [Recognisable, unlisted]
  dsimp only
  split
  · exact retained
  · obtain ⟨x, y, -, root, -⟩ := retained
    simp [Layout.holds, root]

theorem recovers_iff_recognisable (reachable : Reachable platform info layout) :
    (Recovers platform info release layout ↔ Recognisable layout) ∧
      (layout.pending = none → layout.passed ≠ none → Recovers platform info release layout) := by
  have exact : Recovers platform info release layout ↔ Recognisable layout := by
    cases listed : layout.pending with
    | none => exact recovers_unlisted listed
    | some tx =>
      obtain ⟨o, n, here⟩ := reachable.known.pending tx listed
      exact recovers_pending here
  refine ⟨exact, fun unlisted validated => exact.2 ?_⟩
  exact (reachable.known.finished unlisted validated).recognisable unlisted

-- Stopped behind the exchange, and stopped when the transaction was over.
theorem recovers_iff_recognisable_exchanged :
    Recovers .linux versions (versions 1) ((apply .linux).run (Step.outcome versions (versions 1))
        (List.replicate 16 true) Layout.installed.begin).2 ∧
      Recovers .linux versions (versions 1) ((apply .linux).run (Step.outcome versions (versions 1))
        (List.replicate 27 true) Layout.installed.begin).2 := by
  constructor
  · refine (recovers_iff_recognisable (.call .installed .apply (versions 1) (List.replicate 16 true))).1.2 ?_
    refine And.intro ?_ ?_ <;> decide
  · refine (recovers_iff_recognisable (.call .installed .apply (versions 1) (List.replicate 27 true))).2 ?_ ?_
    · decide
    · decide

theorem recover_blocked :
    ∃ layout, Reachable .linux versions layout ∧ ¬Recovers .linux versions (versions 1) layout := by
  refine ⟨_, .call .installed .apply (versions 1) (List.replicate 24 true), fun recovers => ?_⟩
  exact (recovers .recover (by decide)).1.1 (by decide)

end SubConverter.Updater
