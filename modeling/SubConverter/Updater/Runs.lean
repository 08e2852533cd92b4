import SubConverter.Updater.Transactions

set_option autoImplicit false

namespace SubConverter.Updater

structure Safe (old new : Nat) (final : Layout) : Prop where
  root : final.directories .root = some old ∨ final.directories .root = some new ∧
    ((∃ name, final.directories (.counterpart name) = some old) ∨ final.passed = some new)
  copy : (∃ place, final.directories place = some old) ∨ final.passed = some new

inductive Harmful (old new : Nat) (start : Layout) (summary : Summary) : Prop where
  | lost {site : Site} (noted : (summary.marks site).lost = true)
  | unmended (missing : start.directories .root = none) (noted : (summary.marks .repair).moved = false)
  | aside {tx : PendingTransaction} (pending : start.pending = some tx)
      (interrupted : start.directories (.exchangeOld tx.candidateRoot) = some old)
      (noted : (summary.marks .repair).kept = false)
  | resumed {tx : PendingTransaction} (pending : start.pending = some tx)
      (front : start.front tx.candidateRoot = some old) (noted : (summary.marks .resume).unkept = true)
  | retreated {tx : PendingTransaction} (pending : start.pending = some tx)
      (front : start.front tx.candidateRoot = some new) (again : (summary.marks .resume).moved = true)
      (noted : (summary.marks .retreat).unkept = true)
  | installed (noted : (summary.marks .install).unkept = true)
  | unsynced (cleaned : summary.cleaned = true) (noted : (summary.marks .install).late = true)
  | unreverted (cleaned : summary.cleaned = true) (refused : summary.refused = true)
      (noted : (summary.marks .revert).moved = false)

variable {platform : Platform} {info : Nat → BuildInfo} {release : BuildInfo} {tx : PendingTransaction} {o n x y : Nat}
  {start layout : Layout}

theorem Harmful.of_record {step : Step} {good : Bool} {summary : Summary}
    (harmful : Harmful o n (start.record step good) summary) : Harmful o n start summary := by
  cases harmful with
  | lost noted => exact .lost noted
  | unmended missing noted => exact .unmended missing noted
  | aside pending interrupted noted => exact .aside pending interrupted noted
  | resumed pending front noted => exact .resumed pending front noted
  | retreated pending front again noted => exact .retreated pending front again noted
  | installed noted => exact .installed noted
  | unsynced cleaned noted => exact .unsynced cleaned noted
  | unreverted cleaned refused noted => exact .unreverted cleaned refused noted

theorem Safe.home (root : layout.directories .root = some o) : Safe o n layout := ⟨.inl root, .inl ⟨_, root⟩⟩

theorem Safe.pair {name : Counterpart} (same : Same o n x y) (root : layout.directories .root = some x)
    (other : layout.directories (.counterpart name) = some y) : Safe o n layout := by
  rcases same with ⟨rfl, rfl⟩ | ⟨rfl, rfl⟩
  · exact .home root
  · exact ⟨.inr ⟨root, .inl ⟨name, other⟩⟩, .inl ⟨_, other⟩⟩

theorem Pending.safe (here : Pending platform info tx o n layout) (present : layout.directories .root ≠ none)
    (clear : layout.directories (.exchangeOld tx.candidateRoot) ≠ some o) : Safe o n layout := by
  have placed := here.placed
  generalize rootIs : layout.directories .root = root at placed present
  generalize otherIs : layout.directories (.counterpart tx.candidateRoot) = other at placed
  generalize asideIs : layout.directories (.exchangeOld tx.candidateRoot) = aside at placed clear
  cases placed with
  | transit same stage plain =>
    cases stage with
    | before => exact .pair same rootIs otherIs
    | after => exact .pair same.symm rootIs otherIs
    | lifted => exact absurd rfl present
    | entered =>
      rcases same with ⟨rfl, rfl⟩ | ⟨rfl, rfl⟩
      · exact absurd rfl clear
      · exact .home rootIs
  | retained same staged kept => exact .pair same rootIs kept
  | blocked same kept windows => exact .pair same rootIs otherIs

theorem Pending.congr (here : Pending platform info tx o n layout) {final : Layout}
    (directories : final.directories = layout.directories) (pending : final.pending = layout.pending)
    (parties : final.parties = layout.parties) : Pending platform info tx o n final := by
  obtain ⟨plain, present, who, old, new, phase, placed⟩ := here
  exact ⟨by rwa [directories], pending.trans present, parties.trans who, old, new, phase, by rwa [directories]⟩

theorem Known.record (known : Known platform info layout) (step : Step) (good : Bool) :
    Known platform info (layout.record step good) where
  plain := known.plain
  pending tx present := by
    obtain ⟨o, n, here⟩ := known.pending tx present
    exact ⟨o, n, here.record step good⟩
  finished := known.finished

theorem Known.unlisted (known : Known platform info layout) (finished : layout.passed ≠ none → layout.Retained) :
    Known platform info { layout with pending := none } := Known.idle known.plain rfl finished

structure Still (layout final : Layout) : Prop where
  directories : final.directories = layout.directories
  made : final.made = layout.made
  passed : final.passed = layout.passed
  summary : final.summary = layout.summary

theorem Still.trans {middle final : Layout} (first : Still layout middle) (second : Still middle final) :
    Still layout final :=
  ⟨second.directories.trans first.directories, second.made.trans first.made, second.passed.trans first.passed,
    second.summary.trans first.summary⟩

theorem Still.safe {final : Layout} (still : Still layout final) (safe : Safe o n layout) : Safe o n final := by
  obtain ⟨root, copy⟩ := safe
  rw [← still.directories, ← still.passed] at root copy
  exact ⟨root, copy⟩

section Steps

variable {post : Bool → Layout → Prop}

theorem removePending_holds (known : Known platform info layout) (finished : layout.passed ≠ none → layout.Retained)
    (after : ∀ done final, Known platform info final → Still layout final → post done final) :
    Holds info release (Known platform info) post (perform .removePending) layout := by
  refine perform_holds known fun good => ?_
  cases good with
  | true => exact after _ _ ((known.unlisted finished).record _ _) ⟨rfl, rfl, rfl, rfl⟩
  | false => exact after _ _ (known.record _ _) ⟨rfl, rfl, rfl, rfl⟩

theorem quiet_holds {op : Op} (same : ∀ good, (op.effect good layout).2 = layout)
    (silent : ∀ good, layout.summary.note (.op op, good) = layout.summary) (known : Known platform info layout)
    (after : ∀ done final, Known platform info final → Still layout final → post done final) :
    Holds info release (Known platform info) post (perform op) layout :=
  look_holds same known fun _ => after _ _ (known.record _ _) ⟨rfl, rfl, rfl, silent _⟩

theorem validateCounterpart_same (name : Counterpart) (good : Bool) :
    ((Op.validateRuntime (.counterpart name)).effect good layout).2 = layout := by
  simp only [Op.effect, reduceCtorEq, if_false]
  split <;> rfl

section Finalize

variable (here : Pending platform info tx o n layout) (same : Same o n x y) (applied : tx.candidateRoot = .candidate)
  (root : layout.directories .root = some x) (other : layout.directories (.counterpart .candidate) = some y)
  (aside : layout.directories (.exchangeOld .candidate) = none)

include here same applied root

include other aside in
theorem Pending.clear : Pending platform info tx o n (layout.put (.counterpart .rollback) none) := by
  refine ⟨?_, here.pending, here.parties, here.old, here.new, here.phase, ?_⟩
  · intro linux right
    simpa using here.plain linux right
  · simp only [applied, Layout.directories_put, reduceCtorEq, if_false, Place.counterpart.injEq, root, other, aside]
    exact .transit same .before fun _ => rfl

include aside in
theorem Pending.retain : Pending platform info tx o n
    ((layout.put (.counterpart .rollback) (some y)).put (.counterpart .candidate) none) := by
  refine ⟨?_, here.pending, here.parties, here.old, here.new, here.phase, ?_⟩
  · intro linux right
    simpa using here.plain linux right
  · simp only [applied, Layout.directories_put, reduceCtorEq, if_false, if_true, Place.counterpart.injEq, root, aside]
    exact .retained same rfl rfl

include other aside

theorem retain_holds (free : layout.directories (.counterpart .rollback) = none)
    (after : ∀ done final, Pending platform info tx o n final → final.directories .root = some x →
      final.directories (.exchangeOld .candidate) = none →
      (done = true → final.directories (.counterpart .rollback) = some y) → final.passed = layout.passed →
      final.summary = layout.summary → post done final) :
    Holds info release (Known platform info) post
      (allOf [.rename (.counterpart .candidate) (.counterpart .rollback) .finalize, .syncRollbackParent]) layout := by
  have holdsOld : layout.holds (.counterpart .candidate) = true := by simp [Layout.holds, other]
  have isFree : layout.holds (.counterpart .rollback) = false := by simp [Layout.holds, free]
  refine allOf_cons_holds here.known (fun good failed => ?_) fun good performed => ?_
  · cases good with
    | false => exact after _ _ (here.record _ _) root aside nofun rfl rfl
    | true => simp [Op.effect, holdsOld, isFree] at failed
  · cases good with
    | false => simp [Op.effect] at performed
    | true =>
      have retained := (here.retain same applied root aside).record
        (.op (.rename (.counterpart .candidate) (.counterpart .rollback) .finalize)) true
      simp only [Op.effect, holdsOld, isFree, Bool.false_eq_true, not_false_eq_true, and_self, if_true, other]
      refine allOf_look_holds (fun _ => rfl) retained.known ?_ fun _ _ => allOf_nil_holds ?_
      · exact after _ _ (retained.record _ _) (by simpa using root) (by simpa using aside) nofun rfl rfl
      · exact after _ _ (retained.record _ _) (by simpa using root) (by simpa using aside) (by simp) rfl rfl

theorem finalize_holds
    (after : ∀ done final, Pending platform info tx o n final → final.directories .root = some x →
      final.directories (.exchangeOld .candidate) = none →
      (done = true → final.directories (.counterpart .rollback) = some y) → final.passed = layout.passed →
      final.summary = layout.summary → post done final) :
    Holds info release (Known platform info) post (finalizeAppliedRoot .candidate) layout := by
  refine allOf_look_holds (fun _ => rfl) here.known (after _ _ (here.record _ _) root aside nofun rfl rfl) fun _ _ => ?_
  have parent := here.record (.op .makeRollbackParent) true
  refine allOf_cons_holds parent.known (fun good failed => ?_) fun good performed => ?_
  · cases (show good = false from failed)
    exact after _ _ (parent.record _ _) root aside nofun rfl rfl
  · cases (show good = true from performed)
    have cleared := (parent.clear same applied root other aside).record (.op .removeRollback) true
    refine retain_holds cleared same applied ?_ ?_ ?_ ?_ after
    · simpa [Op.effect] using root
    · simpa [Op.effect] using other
    · simpa [Op.effect] using aside
    · simp [Op.effect]

end Finalize

end Steps

section Conclude

variable {post : Exit → Layout → Prop}

theorem finish_holds (known : Known platform info layout) (finished : layout.passed ≠ none → layout.Retained)
    (safe : Safe o n layout)
    (done : ∀ exit final, Known platform info final → Safe o n final → post exit final) :
    Holds info release (Known platform info) post recover.finish layout := by
  refine Script.Keeps.bind (removePending_holds known finished fun _ removed known unlisted => ?_)
  refine Script.Keeps.bind (quiet_holds (fun _ => rfl) (fun _ => rfl) known fun emitted final known emission => ?_)
  have ended := (unlisted.trans emission).safe safe
  cases emitted with
  | true => exact done _ final known ended
  | false => exact done _ final known ended

theorem Stopped.safe {right : Counterpart} {final : Layout} {marks : Marks} (stopped : Stopped right x y final marks)
    (same : Same o n x y) : Safe o n final ∨ marks.lost = true ∨ x = o ∧ marks.unkept = true := by
  cases stopped with
  | both pair root other =>
    left
    rcases pair with ⟨rfl, rfl⟩ | ⟨rfl, rfl⟩
    · exact .pair same root other
    · exact .pair same.symm root other
  | lost noted => exact .inr (.inl noted)
  | unkept root noted =>
    rcases same with ⟨rfl, rfl⟩ | ⟨rfl, rfl⟩
    · exact .inr (.inr ⟨rfl, noted⟩)
    · exact .inl (.home root)

theorem conclude_holds (here : Pending platform info tx o n layout) (same : Same o n x y)
    (root : layout.directories .root = some x) (other : layout.directories (.counterpart tx.candidateRoot) = some y)
    (clear : layout.directories (.exchangeOld tx.candidateRoot) = none ∨
      tx.candidateRoot = .rollback ∧ platform = .windows)
    (fresh : layout.passed = none) (blank : layout.summary.marks .retreat = {})
    (done : ∀ exit final, Known platform info final → Safe o n final → post exit final)
    (failed : ∀ final marks, Known platform info final →
      final.summary = { layout.summary with refused := true }.mark .retreat marks →
      marks.lost = true ∨ x = o ∧ marks.unkept = true → post .failed final) :
    Holds info release (Known platform info) post (recover.conclude platform tx) layout := by
  have present : layout.holds .root = true := by simp [Layout.holds, root]
  refine Script.Keeps.bind (perform_holds here.known fun good => ?_)
  cases good with
  | true =>
    simp only [Op.effect, present, and_self, if_true]
    have passed : Pending platform info tx o n { layout with passed := layout.directories .root } :=
      here.congr rfl rfl rfl
    have validated := passed.record (.op (.validateRuntime .root)) true
    by_cases back : tx.phase.isRollback = true
    · simp only [back, if_true]
      rw [here.phase.1 back] at other
      exact finish_holds validated.known (fun _ => validated.retained same root other) (.pair same root other) done
    · simp only [back]
      have applied : tx.candidateRoot = .candidate := by
        cases staged : tx.candidateRoot with
        | candidate => rfl
        | rollback => exact absurd (here.phase.2 staged) back
      rw [applied] at other clear ⊢
      refine Script.Keeps.bind (finalize_holds validated same applied root other (by simpa using clear) ?_)
      intro finalized final pending rootIs asideIs kept _ _
      have ended : Safe o n final := pending.safe (by simp [rootIs]) (by simp [applied, asideIs])
      cases finalized with
      | true => exact finish_holds pending.known (fun _ => pending.retained same rootIs (kept rfl)) ended done
      | false => exact done _ final pending.known ended
  | false =>
    simp only [Op.effect, Bool.false_eq_true, false_and, if_false]
    have refused := here.record (.op (.validateRuntime .root)) false
    refine Script.Keeps.bind (swap_pending_holds refused same ⟨root, other, rfl, fun _ _ _ _ => rfl, rfl, rfl, rfl, rfl⟩
      clear (by simpa [Summary.note] using blank) ?_ ?_)
    · intro final marks pending _ summary stopped
      rcases stopped.safe same with ended | harm
      · exact done _ final pending.known ended
      · exact failed final marks pending.known summary harm
    · intro final marks pending arranged summary _
      have unvalidated : final.passed = none := arranged.passed.trans fresh
      refine Script.Keeps.bind (removePending_holds pending.known (absurd unvalidated) fun _ removed known unlisted => ?_)
      exact done _ removed known (unlisted.safe (.pair same.symm arranged.root arranged.other))

end Conclude

section Recover

variable {post : Exit → Layout → Prop}

theorem currentBuildInfo_holds {place : Place} {post : Option BuildInfo → Layout → Prop}
    (known : Known platform info layout)
    (missing : ∀ good, post none (layout.record (.currentBuildInfo place) good))
    (found : ∀ directory, layout.directories place = some directory →
      post (some (info directory)) (layout.record (.currentBuildInfo place) true)) :
    Holds info release (Known platform info) post (currentBuildInfo place) layout := by
  refine ⟨known, fun good _ => ?_⟩
  cases good with
  | false => exact missing false
  | true =>
    simp only [Step.outcome]
    cases there : layout.directories place with
    | none => exact missing true
    | some directory => exact found directory there

theorem Placed.settled {right : Counterpart} {retained aside : Option Nat}
    (placed : Placed platform right o n retained (some x) (some y) aside) :
    Same o n x y ∧ (aside = none ∨ right = .rollback ∧ platform = .windows) := by
  cases placed with
  | transit same stage plain =>
    cases stage with
    | before => exact ⟨same, .inl rfl⟩
    | after => exact ⟨same.symm, .inl rfl⟩
  | blocked same kept windows => exact ⟨same, .inr ⟨kept, windows⟩⟩

structure Mended (platform : Platform) (info : Nat → BuildInfo) (tx : PendingTransaction) (o n : Nat)
    (start layout : Layout) : Prop where
  pending : Pending platform info tx o n layout
  listed : start.pending = some tx
  empty : layout.directories .root = none →
    start.directories .root = none ∧ (layout.summary.marks .repair).moved = false
  aside : layout.directories (.exchangeOld tx.candidateRoot) ≠ none →
    layout.directories (.exchangeOld tx.candidateRoot) = start.directories (.exchangeOld tx.candidateRoot) ∧
      (layout.summary.marks .repair).kept = false
  front : ∀ directory, layout.directories .root = some directory → start.front tx.candidateRoot = some directory
  fresh : layout.passed = none
  resume : layout.summary.marks .resume = {}
  retreat : layout.summary.marks .retreat = {}

theorem Pending.mended (here : Pending platform info tx o n layout) (fresh : layout.passed = none)
    (blank : ∀ site, layout.summary.marks site = {}) : Mended platform info tx o n layout layout where
  pending := here
  listed := here.pending
  empty missing := ⟨missing, by simp [blank]⟩
  aside _ := ⟨rfl, by simp [blank]⟩
  front directory root := by simp [Layout.front, root]
  fresh := fresh
  resume := blank .resume
  retreat := blank .retreat

theorem Mended.record (mended : Mended platform info tx o n start layout) (step : Step) (good : Bool)
    (silent : layout.summary.note (step, good) = layout.summary) :
    Mended platform info tx o n start (layout.record step good) := by
  obtain ⟨pending, listed, empty, aside, front, fresh, resume, retreat⟩ := mended
  refine ⟨pending.record step good, listed, ?_, ?_, front, fresh, ?_, ?_⟩ <;> rwa [Layout.summary_record, silent]

theorem Mended.outcome (mended : Mended platform info tx o n start layout) :
    Safe o n layout ∨ Harmful o n start layout.summary := by
  by_cases missing : layout.directories .root = none
  · exact .inr (.unmended (mended.empty missing).1 (mended.empty missing).2)
  by_cases interrupted : layout.directories (.exchangeOld tx.candidateRoot) = some o
  · obtain ⟨same, noted⟩ := mended.aside (by simp [interrupted])
    exact .inr (.aside mended.listed (same.symm.trans interrupted) noted)
  exact .inl (mended.pending.safe missing interrupted)

variable (done : ∀ exit final, Known platform info final →
  Safe o n final ∨ Harmful o n start final.summary → post exit final)

include done

theorem resume_holds (mended : Mended platform info tx o n start layout) (same : Same o n x y)
    (root : layout.directories .root = some x) (other : layout.directories (.counterpart tx.candidateRoot) = some y)
    (clear : layout.directories (.exchangeOld tx.candidateRoot) = none ∨
      tx.candidateRoot = .rollback ∧ platform = .windows) :
    Holds info release (Known platform info) post (do
      if ← perform (.validateRuntime (.counterpart tx.candidateRoot)) then
        if ← atomicSwapDirectories platform tx.candidateRoot .resume then recover.conclude platform tx
        else pure .failed
      else pure .failed) layout := by
  refine Script.Keeps.bind (look_holds (validateCounterpart_same _) mended.pending.known fun good => ?_)
  generalize ((Op.validateRuntime (.counterpart tx.candidateRoot)).effect good layout).1 = validated
  have tried := mended.record (.op (.validateRuntime (.counterpart tx.candidateRoot))) validated
    (by cases validated <;> rfl)
  cases validated with
  | false => exact done _ _ tried.pending.known tried.outcome
  | true =>
    refine Script.Keeps.bind (swap_pending_holds tried.pending same
      ⟨root, other, rfl, fun _ _ _ _ => rfl, rfl, rfl, rfl, rfl⟩ clear tried.resume ?_ ?_)
    · intro final marks pending _ summary stopped
      refine done _ final pending.known ?_
      rcases stopped.safe same with safe | lost | ⟨rfl, unkept⟩
      · exact .inl safe
      · exact .inr (.lost (by rwa [summary, Summary.marks_mark]))
      · exact .inr (.resumed tried.listed (tried.front x root) (by rwa [summary, Summary.marks_mark]))
    · intro final marks pending arranged summary moved
      refine conclude_holds pending same.symm arranged.root arranged.other (.inl arranged.aside)
        (arranged.passed.trans mended.fresh) ?_ ?_ ?_
      · simpa [summary, Summary.mark] using tried.retreat
      · exact fun exit last known safe => done exit last known (.inl safe)
      · intro last after known noted harm
        refine done _ last known (.inr ?_)
        rcases harm with lost | ⟨rfl, unkept⟩
        · exact .lost (by rwa [noted, Summary.marks_mark])
        · have isNew : x = n := by
            rcases same with ⟨rfl, rfl⟩ | ⟨rfl, _⟩ <;> rfl
          refine .retreated tried.listed ((tried.front x root).trans (congrArg some isNew)) ?_ ?_
          · simpa [noted, summary, Summary.mark] using moved
          · rwa [noted, Summary.marks_mark]

theorem reconcile_holds (mended : Mended platform info tx o n start layout) :
    Holds info release (Known platform info) post (do
      let rootInfo ← currentBuildInfo .root
      let candidateInfo ← currentBuildInfo (.counterpart tx.candidateRoot)
      let rootIsNew := rootInfo.any fun info => info.revision = tx.new.revision
      let rootIsOld := rootInfo.any fun info => info.revision = tx.old.revision
      let candidateIsNew := candidateInfo.any fun info => info.revision = tx.new.revision
      let candidateIsOld := candidateInfo.any fun info => info.revision = tx.old.revision
      if rootIsOld && candidateIsNew then
        if ← perform (.validateRuntime (.counterpart tx.candidateRoot)) then
          if ← atomicSwapDirectories platform tx.candidateRoot .resume then recover.conclude platform tx
          else pure .failed
        else pure .failed
      else if rootIsNew && candidateIsOld then recover.conclude platform tx
      else pure .failed) layout := by
  refine Script.Keeps.bind (currentBuildInfo_holds mended.pending.known (fun good => ?_) fun x rootIs => ?_)
  · have looked := mended.record (.currentBuildInfo .root) good rfl
    refine Script.Keeps.bind (currentBuildInfo_holds looked.pending.known (fun good => ?_) fun _ _ => ?_)
    · have seen := looked.record (.currentBuildInfo (.counterpart tx.candidateRoot)) good rfl
      exact done _ _ seen.pending.known seen.outcome
    · have seen := looked.record (.currentBuildInfo (.counterpart tx.candidateRoot)) true rfl
      exact done _ _ seen.pending.known seen.outcome
  · have looked := mended.record (.currentBuildInfo .root) true rfl
    refine Script.Keeps.bind (currentBuildInfo_holds looked.pending.known (fun good => ?_) fun y otherIs => ?_)
    · have seen := looked.record (.currentBuildInfo (.counterpart tx.candidateRoot)) good rfl
      simp only [Option.any_none, Bool.and_false, Bool.false_eq_true, if_false]
      exact done _ _ seen.pending.known seen.outcome
    · have seen := looked.record (.currentBuildInfo (.counterpart tx.candidateRoot)) true rfl
      have placed := mended.pending.placed
      rw [Layout.directories_record] at otherIs
      rw [rootIs, otherIs] at placed
      obtain ⟨same, clear⟩ := placed.settled
      dsimp only
      split
      · exact resume_holds done seen same rootIs otherIs clear
      · rename_i notOld
        split
        · refine conclude_holds seen.pending same rootIs otherIs clear seen.fresh seen.retreat ?_ ?_
          · exact fun exit final known safe => done exit final known (.inl safe)
          · intro final marks known noted harm
            refine done _ final known (.inr ?_)
            rcases harm with lost | ⟨rfl, unkept⟩
            · exact .lost (by rwa [noted, Summary.marks_mark])
            · -- The root would have been taken for the old installation.
              obtain ⟨-, rfl⟩ | ⟨rfl, rfl⟩ := same
              · simp [seen.pending.old, seen.pending.new] at notOld
              · simp [seen.pending.old, seen.pending.new] at notOld
        · exact done _ _ seen.pending.known seen.outcome

end Recover

theorem recover_holds {post : Exit → Layout → Prop} (here : Pending platform info tx o n layout)
    (fresh : layout.passed = none) (blank : ∀ site, layout.summary.marks site = {})
    (done : ∀ exit final, Known platform info final →
      Safe o n final ∨ Harmful o n layout final.summary → post exit final) :
    Holds info release (Known platform info) post (recover platform) layout := by
  refine Script.Keeps.bind ⟨here.known, fun good _ => ?_⟩
  cases good with
  | false =>
    have unread := (here.mended fresh blank).record .readPending false rfl
    exact done _ _ unread.pending.known unread.outcome
  | true =>
    simp only [Step.outcome, here.pending]
    have read := here.record .readPending true
    refine Script.Keeps.bind (repair_holds read (blank _) ?_)
    intro result middle marks repaired
    have mended : Mended platform info tx o n layout middle := by
      refine ⟨repaired.pending, here.pending, ?_, ?_, repaired.front, repaired.passed.trans fresh, ?_, ?_⟩
      · rw [repaired.summary, Summary.marks_mark]
        exact repaired.empty
      · rw [repaired.summary, Summary.marks_mark]
        exact repaired.aside
      · simpa [repaired.summary, Summary.mark, Summary.note] using blank .resume
      · simpa [repaired.summary, Summary.mark, Summary.note] using blank .retreat
    cases result with
    | false => exact done _ middle mended.pending.known mended.outcome
    | true => exact reconcile_holds done mended

end SubConverter.Updater
