import SubConverter.Updater.Runs

set_option autoImplicit false

namespace SubConverter.Updater

variable {platform : Platform} {info : Nat → BuildInfo} {release : BuildInfo} {tx : PendingTransaction} {r c : Nat}
  {start layout : Layout}

inductive Installed (r c : Nat) (final : Layout) : Prop where
  | home (root : final.directories .root = some r)
  | passed (root : final.directories .root = some c) (noted : final.passed = some c)
  | exposed (root : final.directories .root = some c) (other : final.directories (.counterpart .candidate) = some r)
      (noted : (final.summary.marks .install).late = true ∨
        final.summary.refused = true ∧ (final.summary.marks .revert).moved = false)
  | lost {site : Site} (noted : (final.summary.marks site).lost = true)
  | unkept (noted : (final.summary.marks .install).unkept = true)

theorem Installed.still {final : Layout} (installed : Installed r c layout) (still : Still layout final) :
    Installed r c final := by
  cases installed with
  | home root => exact .home (by rwa [still.directories])
  | passed root noted => exact .passed (by rwa [still.directories]) (by rwa [still.passed])
  | exposed root other noted =>
    exact .exposed (by rwa [still.directories]) (by rwa [still.directories]) (by rwa [still.summary])
  | lost noted => exact .lost (by rwa [still.summary])
  | unkept noted => exact .unkept (by rwa [still.summary])

structure Listed (platform : Platform) (info : Nat → BuildInfo) (tx : PendingTransaction) (o n x y : Nat)
    (layout : Layout) : Prop where
  pending : Pending platform info tx o n layout
  root : layout.directories .root = some x
  other : layout.directories (.counterpart tx.candidateRoot) = some y
  clear : layout.directories (.exchangeOld tx.candidateRoot) = none ∨
    tx.candidateRoot = .rollback ∧ platform = .windows

section WritePending

variable {post : Bool → Layout → Prop} {o n x y : Nat}

theorem prepare_holds (known : Known platform info layout) (prepared : tx.phase.isPrepared = true)
    (root : layout.directories .root = some o) (other : layout.directories (.counterpart tx.candidateRoot) = some n)
    (clear : layout.directories (.exchangeOld tx.candidateRoot) = none ∨
      tx.candidateRoot = .rollback ∧ platform = .windows)
    (old : tx.old = info o) (new : tx.new = info n) (phase : tx.phase.isRollback = true ↔ tx.candidateRoot = .rollback)
    (failed : ∀ final, Known platform info final → Still layout final → post false final)
    (written : ∀ final, Listed platform info tx o n o n final → Still layout final → post true final) :
    Holds info release (Known platform info) post (writeJSONAtomic tx) layout := by
  have pending : Pending platform info tx o n { layout with
      pending := some tx
      parties := (layout.directories .root, layout.directories (.counterpart tx.candidateRoot)) } := by
    refine ⟨known.plain, rfl, ?_, old, new, phase, ?_⟩
    · simp [root, other]
    · simp only [root, other]
      cases asideIs : layout.directories (.exchangeOld tx.candidateRoot) with
      | none => exact .transit (.inl ⟨rfl, rfl⟩) .before fun _ => rfl
      | some z =>
        obtain ⟨kept, windows⟩ := clear.resolve_left (by simp [asideIs])
        exact .blocked (.inl ⟨rfl, rfl⟩) kept windows
  refine allOf_cons_holds known (fun good wrong => ?_) fun good done => ?_
  · cases (show good = false from wrong)
    exact failed _ (known.record _ _) ⟨rfl, rfl, rfl, rfl⟩
  · cases (show good = true from done)
    simp only [Op.effect, prepared, if_true]
    have listed := pending.record (.op (.writePending tx)) true
    refine allOf_look_holds (fun _ => rfl) listed.known ?_ fun _ _ => allOf_nil_holds ?_
    · exact failed _ (listed.record _ _).known ⟨rfl, rfl, rfl, rfl⟩
    · exact written _ ⟨listed.record _ _, root, other, clear⟩ ⟨rfl, rfl, rfl, rfl⟩

theorem update_holds {next : Phase} (here : Listed platform info tx o n x y layout) (later : next.isPrepared = false)
    (same : next.isRollback = tx.phase.isRollback)
    (failed : ∀ final phase, Listed platform info { tx with phase := phase } o n x y final → Still layout final →
      post false final)
    (written : ∀ final, Listed platform info { tx with phase := next } o n x y final → Still layout final →
      post true final) :
    Holds info release (Known platform info) post (writeJSONAtomic { tx with phase := next }) layout := by
  have pending : Pending platform info { tx with phase := next } o n
      { layout with pending := some { tx with phase := next } } := by
    obtain ⟨plain, listed, parties, old, new, phase, placed⟩ := here.pending
    exact ⟨plain, rfl, parties, old, new, same ▸ phase, placed⟩
  refine allOf_cons_holds here.pending.known (fun good wrong => ?_) fun good done => ?_
  · cases (show good = false from wrong)
    exact failed _ tx.phase ⟨here.pending.record _ _, here.root, here.other, here.clear⟩ ⟨rfl, rfl, rfl, rfl⟩
  · cases (show good = true from done)
    simp only [Op.effect, later, Bool.false_eq_true, if_true, if_false]
    have listed := pending.record (.op (.writePending { tx with phase := next })) true
    refine allOf_look_holds (fun _ => rfl) listed.known ?_ fun _ _ => allOf_nil_holds ?_
    · exact failed _ next ⟨listed.record _ _, here.root, here.other, here.clear⟩ ⟨rfl, rfl, rfl, rfl⟩
    · exact written _ ⟨listed.record _ _, here.root, here.other, here.clear⟩ ⟨rfl, rfl, rfl, rfl⟩

end WritePending

section Install

variable {o n x y : Nat}

theorem Listed.exchange_holds {post : Bool → Layout → Prop} {site : Site} (here : Listed platform info tx o n x y layout)
    (applied : tx.candidateRoot = .candidate) (same : Same o n x y) (blank : layout.summary.marks site = {})
    (failed : ∀ final root other aside marks, Failure x y root other aside marks →
      Arranged layout .candidate root other aside final → Pending platform info tx o n final →
      final.summary = layout.summary.mark site marks → post false final)
    (swapped : ∀ final marks, Listed platform info tx o n y x final → final.passed = layout.passed →
      final.summary = layout.summary.mark site marks → marks.moved = true → post true final) :
    Holds info release (Known platform info) post (atomicSwapDirectories platform .candidate site) layout := by
  obtain ⟨pending, root, other, clear⟩ := here
  have clear : layout.directories (.exchangeOld tx.candidateRoot) = none := by simpa [applied] using clear
  have arranged : Arranged layout tx.candidateRoot (some x) (some y) none layout :=
    ⟨root, other, clear, fun _ _ _ _ => rfl, rfl, rfl, rfl, rfl⟩
  have inTransit : ∀ final root other aside, Transit x y root other aside → (platform = .linux → aside = none) →
      Arranged layout tx.candidateRoot root other aside final → Pending platform info tx o n final :=
    fun final root other aside stage plain moved => pending.arranged moved plain (.transit same stage plain)
  rw [← applied] at failed ⊢
  refine swap_holds platform arranged blank ?_ ?_ ?_
  · intro final root other aside stage plain moved
    exact (inTransit final root other aside stage plain moved).known
  · intro final root other aside marks failure plain moved summary
    exact failed final root other aside marks failure moved
      (inTransit final root other aside failure.transit plain moved) summary
  · intro final marks moved summary noted
    exact swapped final marks ⟨inTransit final _ _ _ .after (fun _ => rfl) moved, moved.root, moved.other, .inl moved.aside⟩
      moved.passed summary noted

theorem Failure.back {right : Counterpart} {root other aside : Option Nat} {marks : Marks} {final : Layout}
    (failure : Failure c r root other aside marks) (arranged : Arranged layout right root other aside final) :
    final.directories .root = some r ∨ marks.lost = true ∨
      marks.moved = false ∧ final.directories .root = some c ∧ final.directories (.counterpart right) = some r := by
  cases failure with
  | unchanged kept => exact .inr (.inr ⟨kept, arranged.root, arranged.other⟩)
  | late => exact .inl arranged.root
  | lost => exact .inr (.inl rfl)
  | unkept => exact .inl arranged.root

variable {post : Exit → Layout → Prop}
  (done : ∀ exit final, Known platform info final →
    Installed r c final ∨ final.pending ≠ none ∧ Safe r c final → post exit final)

include done

theorem exchanged_holds (here : Listed platform info tx r c c r layout) (applied : tx.candidateRoot = .candidate)
    (phase : tx.phase = .prepared) (fresh : layout.passed = none)
    (undo : layout.summary.marks .undo = {}) (revert : layout.summary.marks .revert = {}) :
    Holds info release (Known platform info) post (do
      if ← writeJSONAtomic { tx with phase := .exchanged } then
        if ← perform (.validateRuntime .root) then
          if ← finalizeAppliedRoot .candidate then
            let _ ← perform .removePending
            let _ ← perform .syncState
            if ← perform .emitState then pure .changed else pure .failed
          else pure .failed
        else
          let _ ← atomicSwapDirectories platform .candidate .revert
          let _ ← perform .removePending
          let _ ← perform .emitState
          pure .failed
      else
        let _ ← atomicSwapDirectories platform .candidate .undo
        pure .failed) layout := by
  refine Script.Keeps.bind (update_holds here rfl (by rw [phase]; rfl) ?_ ?_)
  · intro final phase listed still
    refine Script.Keeps.bind (listed.exchange_holds applied (.inr ⟨rfl, rfl⟩) ?_ ?_ ?_)
    · rw [still.summary]
      exact undo
    · intro last root other aside marks failure moved pending summary
      refine done _ last pending.known ?_
      rcases failure.back moved with home | lost | ⟨-, root, other⟩
      · exact .inl (.home home)
      · exact .inl (.lost (by rwa [summary, Summary.marks_mark]))
      · exact .inr ⟨by simp [pending.pending], .pair (.inr ⟨rfl, rfl⟩) root other⟩
    · intro last marks listed _ _ _
      exact done _ last listed.pending.known (.inl (.home listed.root))
  · intro final listed still
    refine Script.Keeps.bind (perform_holds listed.pending.known fun good => ?_)
    cases good with
    | true =>
      have present : final.holds .root = true := by simp [Layout.holds, listed.root]
      simp only [Op.effect, present, and_self, if_true]
      have passed : Pending platform info { tx with phase := .exchanged } r c
          { final with passed := final.directories .root } := listed.pending.congr rfl rfl rfl
      have clear : final.directories (.exchangeOld .candidate) = none := by simpa [applied] using listed.clear
      have other : final.directories (.counterpart .candidate) = some r := by simpa [applied] using listed.other
      refine Script.Keeps.bind (finalize_holds (passed.record _ _) (.inr ⟨rfl, rfl⟩) applied listed.root other clear ?_)
      intro finalized last pending root _ kept noted _
      have installed : Installed r c last := .passed root (noted.trans listed.root)
      cases finalized with
      | false => exact done _ last pending.known (.inl installed)
      | true =>
        have finished : last.Retained := pending.retained (.inr ⟨rfl, rfl⟩) root (kept rfl)
        refine Script.Keeps.bind (removePending_holds pending.known (fun _ => finished) fun _ removed known first => ?_)
        refine Script.Keeps.bind (quiet_holds (fun _ => rfl) (fun _ => rfl) known fun _ synced known second => ?_)
        refine Script.Keeps.bind (quiet_holds (fun _ => rfl) (fun _ => rfl) known fun emitted ended known third => ?_)
        have stays := installed.still ((first.trans second).trans third)
        cases emitted with
        | true => exact done _ ended known (.inl stays)
        | false => exact done _ ended known (.inl stays)
    | false =>
      simp only [Op.effect, Bool.false_eq_true, false_and, if_false]
      have refused : Listed platform info { tx with phase := .exchanged } r c c r
          (final.record (.op (.validateRuntime .root)) false) :=
        ⟨listed.pending.record _ _, listed.root, listed.other, listed.clear⟩
      have ending : ∀ middle, Known platform info middle → middle.passed = none → Installed r c middle →
          Holds info release (Known platform info) post (do
            let _ ← perform .removePending
            let _ ← perform .emitState
            pure .failed) middle := by
        intro middle known unvalidated installed
        refine Script.Keeps.bind (removePending_holds known (absurd unvalidated) fun _ removed known first => ?_)
        refine Script.Keeps.bind (quiet_holds (fun _ => rfl) (fun _ => rfl) known fun _ ended known second => ?_)
        exact done _ ended known (.inl (installed.still (first.trans second)))
      refine Script.Keeps.bind (refused.exchange_holds applied (.inr ⟨rfl, rfl⟩) ?_ ?_ ?_)
      · simpa [Summary.note, still.summary] using revert
      · intro last root other aside marks failure moved pending summary
        refine ending last pending.known (moved.passed.trans (still.passed.trans fresh)) ?_
        rcases failure.back moved with home | lost | ⟨unmoved, root, other⟩
        · exact .home home
        · exact .lost (by rwa [summary, Summary.marks_mark])
        · refine .exposed root other (.inr ⟨?_, by rwa [summary, Summary.marks_mark]⟩)
          simp [summary, Summary.mark, Summary.note]
      · intro last marks listed passed _ _
        exact ending last listed.pending.known (passed.trans (still.passed.trans fresh)) (.home listed.root)

theorem install_holds {version : BuildInfo} (known : Known platform info layout)
    (root : layout.directories .root = some r) (other : layout.directories (.counterpart .candidate) = some c)
    (aside : layout.directories (.exchangeOld .candidate) = none) (fresh : layout.passed = none)
    (blank : ∀ site, layout.summary.marks site = {}) :
    Holds info release (Known platform info) post (install platform version (info r)) layout := by
  have home : ∀ final, final.directories = layout.directories → Installed r c final := fun final same =>
    .home (by rw [same, root])
  refine Script.Keeps.bind (currentBuildInfo_holds known (fun good => ?_) fun found there => ?_)
  · exact done _ _ (known.record _ _) (.inl (home _ rfl))
  obtain rfl : found = c := Option.some.inj (there.symm.trans other)
  have looked := known.record (.currentBuildInfo (.counterpart .candidate)) true
  dsimp only
  split
  · exact done _ _ looked (.inl (home _ rfl))
  refine Script.Keeps.bind (allOf_look_holds (fun _ => rfl) looked ?_ fun _ _ => ?_)
  · exact done _ _ (looked.record _ _) (.inl (home _ rfl))
  have preserved := looked.record (.op (.preserveMutableFiles (.counterpart .candidate))) true
  refine allOf_look_holds (validateCounterpart_same _) preserved ?_ fun _ _ => allOf_nil_holds ?_
  · exact done _ _ (preserved.record _ _) (.inl (home _ rfl))
  have validated := preserved.record (.op (.validateRuntime (.counterpart .candidate))) true
  refine Script.Keeps.bind (prepare_holds validated rfl root other (.inl aside) rfl rfl (by simp [Phase.isRollback]) ?_ ?_)
  · intro final known still
    exact done _ final known (.inl (home _ still.directories))
  · intro final listed still
    refine Script.Keeps.bind (listed.exchange_holds rfl (.inl ⟨rfl, rfl⟩) ?_ ?_ ?_)
    · simpa [still.summary, Summary.note] using blank .install
    · intro last root other aside marks failure moved pending summary
      have unvalidated : last.passed = none := moved.passed.trans (still.passed.trans fresh)
      refine Script.Keeps.bind (removePending_holds pending.known (absurd unvalidated) fun _ removed known unlisted => ?_)
      refine done _ removed known (.inl (Installed.still ?_ unlisted))
      cases failure with
      | unchanged => exact .home moved.root
      | late => exact .exposed moved.root moved.other (.inl (by simp [summary]))
      | lost => exact .lost (by rw [summary, Summary.marks_mark]; rfl)
      | unkept => exact .unkept (by simp [summary])
    · intro last marks listed passed summary _
      refine exchanged_holds done listed rfl rfl (passed.trans (still.passed.trans fresh)) ?_ ?_
      · simpa [summary, still.summary, Summary.mark, Summary.note] using blank .undo
      · simpa [summary, still.summary, Summary.mark, Summary.note] using blank .revert

end Install

section Apply

variable {post : Exit → Layout → Prop}

theorem Safe.passed (root : layout.directories .root = some c) (noted : layout.passed = some c) : Safe r c layout :=
  ⟨.inr ⟨root, .inr noted⟩, .inr noted⟩

theorem Installed.outcome (installed : Installed r c layout) : Safe r c layout ∨ Harmful r c start layout.summary := by
  cases installed with
  | home root => exact .inl (.home root)
  | passed root noted => exact .inl (.passed root noted)
  | exposed root other noted => exact .inl (.pair (.inr ⟨rfl, rfl⟩) root other)
  | lost noted => exact .inr (.lost noted)
  | unkept noted => exact .inr (.installed noted)

theorem Installed.cleaned {final : Layout} (installed : Installed r c layout)
    (root : final.directories .root = layout.directories .root) (passed : final.passed = layout.passed)
    (summary : final.summary = { layout.summary with cleaned := true }) :
    Safe r c final ∨ Harmful r c start final.summary := by
  rw [summary]
  cases installed with
  | home there => exact .inl (.home (root.trans there))
  | passed there noted => exact .inl (.passed (root.trans there) (passed.trans noted))
  | exposed there other noted =>
    rcases noted with late | ⟨refused, unmoved⟩
    · exact .inr (.unsynced rfl late)
    · exact .inr (.unreverted rfl refused unmoved)
  | lost noted => exact .inr (.lost noted)
  | unkept noted => exact .inr (.installed noted)

theorem removeStaging_known {site : Site} (known : Known platform info layout) (unlisted : layout.pending = none)
    (good : Bool) : Known platform info ((Op.removeStaging site).effect good layout).2 := by
  refine .idle (fun linux right => ?_) ?_ fun passed => ?_
  · cases good with
    | false => exact known.plain linux right
    | true =>
      simp only [Op.effect, if_true, Layout.directories_put, reduceCtorEq, if_false]
      split
      · rfl
      · exact known.plain linux right
  · cases good <;> exact unlisted
  · cases good with
    | false => exact known.finished unlisted passed
    | true => exact (known.finished unlisted passed).congr rfl (by simp [Op.effect]) (by simp [Op.effect])

theorem cleanUp_holds {exit : Exit} (known : Known platform info layout)
    (ended : Installed r c layout ∨ layout.pending ≠ none ∧ Safe r c layout)
    (done : ∀ exit final, Known platform info final →
      Safe r c final ∨ Harmful r c start final.summary → post exit final) :
    Holds info release (Known platform info) post (cleanUp exit) layout := by
  have stays : ∀ good, post exit (layout.record .statPending good) := by
    intro good
    refine done _ _ (known.record _ _) ?_
    rcases ended with installed | ⟨-, safe⟩
    · refine Installed.outcome (installed.still ?_)
      exact ⟨rfl, rfl, rfl, rfl⟩
    · exact .inl ⟨safe.root, safe.copy⟩
  refine Script.Keeps.bind ⟨known, fun good _ => ?_⟩
  cases good with
  | false => exact stays false
  | true =>
    cases listed : layout.pending with
    | some tx =>
      simp only [Step.outcome, listed]
      exact stays true
    | none =>
      simp only [Step.outcome, listed]
      have installed := ended.resolve_right fun guarded => guarded.1 listed
      refine Script.Keeps.bind (perform_holds (known.record _ _) fun good => ?_)
      refine done _ _ ((removeStaging_known (known.record _ _) listed good).record _ _) ?_
      cases good with
      | false =>
        refine Installed.outcome (installed.still ?_)
        exact ⟨rfl, rfl, rfl, rfl⟩
      | true => exact installed.cleaned (by simp [Op.effect]) rfl rfl

/-- The directories that a call of `apply` is about: those of the pending transaction, or the root and the one that
it is about to make. -/
def Subjects (start : Layout) (old new : Nat) : Prop :=
  match start.pending with
  | some _ => start.parties = (some old, some new)
  | none => start.directories .root = some old ∧ new = start.made

theorem apply_idle_holds (known : Known platform info layout) (unlisted : layout.pending = none)
    (root : layout.directories .root = some r) (new : c = layout.made) (fresh : layout.passed = none) (blank : ∀ site, layout.summary.marks site = {})
    (done : ∀ exit final, Known platform info final →
      Safe r c final ∨ Harmful r c start final.summary → post exit final) :
    Holds info release (Known platform info) post (do
      if ← allOf [.downloadRelease, .removeStaging .extract, .extractPortableArchive] then
        let exit ← install platform release (info r)
        cleanUp exit
      else pure .failed) layout := by
  refine Script.Keeps.bind (allOf_look_holds (fun _ => rfl) known ?_ fun _ _ => ?_)
  · exact done _ _ (known.record _ _) (.inl (.home root))
  have downloaded := known.record (.op .downloadRelease) true
  refine allOf_cons_holds downloaded (fun good failed => ?_) fun good performed => ?_
  · cases (show good = false from failed)
    exact done _ _ (downloaded.record _ _) (.inl (.home root))
  cases (show good = true from performed)
  have removed : Known platform info (((Op.removeStaging .extract).effect true
      (layout.record (.op .downloadRelease) true)).2.record (.op (.removeStaging .extract)) true) :=
    (removeStaging_known downloaded unlisted true).record _ _
  refine allOf_cons_holds removed (fun good failed => ?_) fun good performed => ?_
  · cases (show good = false from failed)
    exact done _ _ (removed.record _ _) (.inl (.home (by simpa [Op.effect] using root)))
  cases (show good = true from performed)
  have cleans : ∀ exit final, Known platform info final →
      Installed r c final ∨ final.pending ≠ none ∧ Safe r c final →
      Holds info release (Known platform info) post (cleanUp exit) final :=
    fun exit final known ended => cleanUp_holds known ended done
  refine allOf_nil_holds (Script.Keeps.bind (install_holds cleans ?_ ?_ ?_ ?_ fresh ?_))
  · refine .idle (fun linux right => ?_) unlisted (absurd fresh)
    simpa [Op.effect] using removed.plain linux right
  · simpa [Op.effect] using root
  · simp only [Op.effect, if_true, Layout.directories_record, Layout.directories_put]
    exact congrArg some new.symm
  · simp [Op.effect]
  · exact blank

theorem apply_check_holds (known : Known platform info layout) (unlisted : layout.pending = none)
    (early : ∀ exit final, Known platform info final → Still layout final → post exit final)
    (go : ∀ directory middle, layout.directories .root = some directory → Known platform info middle →
      middle.pending = none → Still layout middle →
      Holds info release (Known platform info) post (do
        if ← allOf [.downloadRelease, .removeStaging .extract, .extractPortableArchive] then
          let exit ← install platform release (info directory)
          cleanUp exit
        else pure .failed) middle) :
    Holds info release (Known platform info) post (apply platform) layout := by
  refine Script.Keeps.bind ⟨known, fun good _ => ?_⟩
  have stat := known.record .statPending good
  cases good with
  | false => exact early _ _ stat ⟨rfl, rfl, rfl, rfl⟩
  | true =>
    simp only [Step.outcome, unlisted]
    refine Script.Keeps.bind (look_holds (fun _ => rfl) stat fun running => ?_)
    have asked := stat.record (.op .applicationRunning) running
    refine ite_holds (fun _ => early _ _ asked ⟨rfl, rfl, rfl, rfl⟩) fun _ => ?_
    refine Script.Keeps.bind ⟨asked, fun resolves _ => ?_⟩
    have resolved := asked.record .resolveRelease resolves
    cases resolves with
    | false => exact early _ _ resolved ⟨rfl, rfl, rfl, rfl⟩
    | true =>
      refine Script.Keeps.bind (currentBuildInfo_holds resolved (fun good => ?_) fun first _ => ?_)
      · exact early _ _ (resolved.record _ _) ⟨rfl, rfl, rfl, rfl⟩
      have read := resolved.record (.currentBuildInfo .root) true
      dsimp only [Step.outcome]
      refine ite_holds (fun _ => ?_) fun _ => ?_
      · refine Script.Keeps.bind (look_holds (fun _ => rfl) read fun emitted => ?_)
        cases emitted <;> exact early _ _ (read.record _ _) ⟨rfl, rfl, rfl, rfl⟩
      refine Script.Keeps.bind (currentBuildInfo_holds read (fun good => ?_) fun second there => ?_)
      · exact early _ _ (read.record _ _) ⟨rfl, rfl, rfl, rfl⟩
      exact go second _ there (read.record _ _) unlisted ⟨rfl, rfl, rfl, rfl⟩

theorem apply_holds (known : Known platform info layout) (subjects : Subjects layout r c)
    (fresh : layout.passed = none) (blank : ∀ site, layout.summary.marks site = {})
    (done : ∀ exit final, Known platform info final →
      Safe r c final ∨ Harmful r c layout final.summary → post exit final) :
    Holds info release (Known platform info) post (apply platform) layout := by
  cases listed : layout.pending with
  | some tx =>
    obtain ⟨o, n, here⟩ := known.pending tx listed
    obtain ⟨rfl, rfl⟩ : o = r ∧ n = c := by
      simpa [Subjects, listed, here.parties] using subjects
    refine Script.Keeps.bind ⟨known, fun good _ => ?_⟩
    have mended := (here.mended fresh blank).record .statPending good rfl
    cases good with
    | false => exact done _ _ mended.pending.known mended.outcome
    | true =>
      simp only [Step.outcome, listed]
      refine recover_holds mended.pending fresh blank fun exit final known ended => done exit final known ?_
      exact ended.imp_right Harmful.of_record
  | none =>
    obtain ⟨root, new⟩ : layout.directories .root = some r ∧ c = layout.made := by
      simpa [Subjects, listed] using subjects
    refine apply_check_holds known listed ?_ ?_
    · exact fun exit final known still => done exit final known (.inl (still.safe (.home root)))
    · intro directory middle there known unlisted still
      obtain rfl : directory = r := Option.some.inj (there.symm.trans root)
      refine apply_idle_holds known unlisted ?_ (new.trans still.made.symm) (still.passed.trans fresh) ?_ done
      · rwa [still.directories]
      · rwa [still.summary]

theorem apply_rootless_holds (known : Known platform info layout) (unlisted : layout.pending = none)
    (missing : layout.directories .root = none) (done : ∀ exit final, Known platform info final → post exit final) :
    Holds info release (Known platform info) post (apply platform) layout := by
  refine apply_check_holds known unlisted (fun exit final known _ => done exit final known) ?_
  intro directory middle there
  rw [missing] at there
  cases there

end Apply

end SubConverter.Updater
