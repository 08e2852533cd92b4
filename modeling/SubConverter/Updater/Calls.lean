import SubConverter.Updater.Apply

set_option autoImplicit false

namespace SubConverter.Updater

variable {platform : Platform} {info : Nat → BuildInfo} {release : BuildInfo} {layout : Layout}

section Rollback

variable {post : Exit → Layout → Prop} (done : ∀ exit final, Known platform info final → post exit final)

include done

theorem recover_known_holds (known : Known platform info layout) (fresh : layout.passed = none)
    (blank : ∀ site, layout.summary.marks site = {}) :
    Holds info release (Known platform info) post (recover platform) layout := by
  cases listed : layout.pending with
  | some tx =>
    obtain ⟨o, n, here⟩ := known.pending tx listed
    exact recover_holds here fresh blank fun exit final known _ => done exit final known
  | none =>
    refine Script.Keeps.bind ⟨known, fun good _ => ?_⟩
    cases good with
    | false => exact done _ _ (known.record _ _)
    | true =>
      simp only [Step.outcome, listed]
      exact done _ _ (known.record _ _)

theorem dismiss_holds (exit : Exit) (known : Known platform info layout) (fresh : layout.passed = none) :
    Holds info release (Known platform info) post (do
      let _ ← perform .removePending
      pure exit) layout :=
  Script.Keeps.bind (removePending_holds known (absurd fresh) fun _ removed known _ => done _ removed known)

theorem rolledBack_holds {tx : PendingTransaction} {o n : Nat} (here : Listed platform info tx o n n o layout)
    (back : tx.candidateRoot = .rollback) (fresh : layout.passed = none)
    (blank : layout.summary.marks .restore = {}) :
    Holds info release (Known platform info) post (do
      if ← perform (.validateRuntime .root) then
        let _ ← perform .removePending
        if ← perform .emitState then pure .changed else pure .failed
      else
        let _ ← atomicSwapDirectories platform .rollback .restore
        let _ ← perform .removePending
        pure .failed) layout := by
  refine Script.Keeps.bind (perform_holds here.pending.known fun good => ?_)
  cases good with
  | true =>
    have present : layout.holds .root = true := by simp [Layout.holds, here.root]
    simp only [Op.effect, present, and_self, if_true]
    have passed : Pending platform info tx o n { layout with passed := layout.directories .root } :=
      here.pending.congr rfl rfl rfl
    have kept : layout.directories (.counterpart .rollback) = some o := by rw [← back, here.other]
    have finished := (passed.record (.op (.validateRuntime .root)) true).retained (.inr ⟨rfl, rfl⟩) here.root kept
    refine Script.Keeps.bind (removePending_holds (passed.record _ _).known (fun _ => finished) fun _ removed known _ => ?_)
    refine Script.Keeps.bind (quiet_holds (fun _ => rfl) (fun _ => rfl) known fun emitted final known _ => ?_)
    cases emitted <;> exact done _ final known
  | false =>
    simp only [Op.effect, Bool.false_eq_true, false_and, if_false]
    have refused := here.pending.record (.op (.validateRuntime .root)) false
    rw [← back]
    refine Script.Keeps.bind (swap_pending_holds refused (.inr ⟨rfl, rfl⟩)
      ⟨here.root, here.other, rfl, fun _ _ _ _ => rfl, rfl, rfl, rfl, rfl⟩ here.clear ?_ ?_ ?_)
    · simpa [Summary.note] using blank
    · exact fun final _ pending passed _ _ => dismiss_holds done _ pending.known (passed.trans fresh)
    · exact fun final _ pending moved _ _ => dismiss_holds done _ pending.known (moved.passed.trans fresh)

theorem rollback_holds (known : Known platform info layout) (fresh : layout.passed = none)
    (blank : ∀ site, layout.summary.marks site = {}) :
    Holds info release (Known platform info) post (rollback platform) layout := by
  refine Script.Keeps.bind ⟨known, fun good _ => ?_⟩
  have stat := known.record .statPending good
  cases good with
  | false => exact done _ _ stat
  | true =>
    cases listed : layout.pending with
    | some tx =>
      simp only [Step.outcome, listed]
      exact recover_known_holds done stat fresh blank
    | none =>
      simp only [Step.outcome, listed]
      refine Script.Keeps.bind (look_holds (fun _ => rfl) stat fun running => ?_)
      have asked := stat.record (.op .applicationRunning) running
      refine ite_holds (fun _ => done _ _ asked) fun _ => ?_
      refine Script.Keeps.bind (currentBuildInfo_holds asked (fun good => done _ _ (asked.record _ _)) fun o root => ?_)
      have current := asked.record (.currentBuildInfo .root) true
      refine Script.Keeps.bind (currentBuildInfo_holds current (fun good => done _ _ (current.record _ _)) fun n other => ?_)
      have found := current.record (.currentBuildInfo (.counterpart .rollback)) true
      refine Script.Keeps.bind (allOf_look_holds (fun _ => rfl) found (done _ _ (found.record _ _)) fun _ _ => ?_)
      have preserved := found.record (.op (.preserveMutableFiles (.counterpart .rollback))) true
      refine allOf_look_holds (validateCounterpart_same _) preserved (done _ _ (preserved.record _ _)) fun _ _ =>
        allOf_nil_holds ?_
      have validated := preserved.record (.op (.validateRuntime (.counterpart .rollback))) true
      refine Script.Keeps.bind (prepare_holds validated rfl root other ?_ rfl rfl (by simp [Phase.isRollback]) ?_ ?_)
      · cases platform with
        | linux => exact .inl (known.plain rfl .rollback)
        | windows => exact .inr ⟨rfl, rfl⟩
      · exact fun final known _ => done _ final known
      · intro final listed still
        refine Script.Keeps.bind (swap_pending_holds listed.pending (.inl ⟨rfl, rfl⟩)
          ⟨listed.root, listed.other, rfl, fun _ _ _ _ => rfl, rfl, rfl, rfl, rfl⟩ listed.clear ?_ ?_ ?_)
        · simpa [still.summary, Summary.note] using blank .rollback
        · exact fun final _ pending passed _ _ =>
            dismiss_holds done _ pending.known (passed.trans (still.passed.trans fresh))
        · intro final marks pending moved summary _
          have restore : final.summary.marks .restore = {} := by
            simpa [summary, still.summary, Summary.mark, Summary.note] using blank .restore
          have exchanged : Listed platform info _ o n n o final := ⟨pending, moved.root, moved.other, .inl moved.aside⟩
          have unvalidated : final.passed = none := moved.passed.trans (still.passed.trans fresh)
          refine Script.Keeps.bind (update_holds exchanged rfl rfl ?_ ?_)
          · intro final phase written still
            exact rolledBack_holds done written rfl (still.passed.trans unvalidated) (by rw [still.summary, restore])
          · intro final written still
            exact rolledBack_holds done written rfl (still.passed.trans unvalidated) (by rw [still.summary, restore])

theorem apply_known_holds (known : Known platform info layout) (fresh : layout.passed = none)
    (blank : ∀ site, layout.summary.marks site = {}) :
    Holds info release (Known platform info) post (apply platform) layout := by
  cases listed : layout.pending with
  | some tx =>
    obtain ⟨o, n, here⟩ := known.pending tx listed
    have subjects : Subjects layout o n := by simp [Subjects, listed, here.parties]
    exact apply_holds known subjects fresh blank fun exit final known _ => done exit final known
  | none =>
    cases root : layout.directories .root with
    | none => exact apply_rootless_holds known listed root done
    | some r =>
      have subjects : Subjects layout r layout.made := by simp [Subjects, listed, root]
      exact apply_holds known subjects fresh blank fun exit final known _ => done exit final known

end Rollback

inductive Call where
  | apply
  | rollback
  | recover
  deriving DecidableEq, Repr

def Call.script (platform : Platform) : Call → UpdaterScript Exit
  | .apply => Updater.apply platform
  | .rollback => Updater.rollback platform
  | .recover => Updater.recover platform

def Layout.installed : Layout where
  directories place := if place = .root then some 0 else none
  made := 1

def Layout.begin (layout : Layout) : Layout := { layout with passed := none, log := [] }

/-- The layouts that calls of the updater can leave, each of them run to its end or stopped between two steps. -/
inductive Reachable (platform : Platform) (info : Nat → BuildInfo) : Layout → Prop where
  | installed : Reachable platform info .installed
  | call {layout : Layout} (reached : Reachable platform info layout) (call : Call) (release : BuildInfo)
      (fates : List Bool) :
      Reachable platform info ((call.script platform).run (Step.outcome info release) fates layout.begin).2

theorem Known.begin (known : Known platform info layout) : Known platform info layout.begin where
  plain := known.plain
  pending tx listed := by
    obtain ⟨o, n, here⟩ := known.pending tx listed
    exact ⟨o, n, here.congr rfl rfl rfl⟩
  finished _ validated := absurd rfl validated

theorem call_known (known : Known platform info layout) (call : Call) (release : BuildInfo) (fates : List Bool) :
    Known platform info ((call.script platform).run (Step.outcome info release) fates layout.begin).2 := by
  have holds : Holds info release (Known platform info) (fun _ => Known platform info) (call.script platform)
      layout.begin := by
    cases call with
    | apply => exact apply_known_holds (fun _ _ known => known) known.begin rfl fun _ => rfl
    | rollback => exact rollback_holds (fun _ _ known => known) known.begin rfl fun _ => rfl
    | recover => exact recover_known_holds (fun _ _ known => known) known.begin rfl fun _ => rfl
  have ended := holds.run fates
  split at ended
  next found => simpa [found] using ended
  next found => simpa [found] using ended

theorem Reachable.known (reachable : Reachable platform info layout) : Known platform info layout := by
  induction reachable with
  | installed => exact .idle (fun _ right => by simp [Layout.installed]) rfl (absurd rfl)
  | call _ call release fates known => exact call_known known call release fates

theorem apply_keeps_installation {start final : Layout} {old new : Nat} {exit : Exit} {fates : List Bool}
    (reachable : Reachable platform info start) (subjects : Subjects start old new)
    (returned : (apply platform).run (Step.outcome info release) fates start.begin = (some exit, final))
    (harmless : ¬Harmful old new start.begin final.summary) : Safe old new final := by
  have holds : Holds info release (Known platform info)
      (fun _ final => Safe old new final ∨ Harmful old new start.begin final.summary) (apply platform) start.begin :=
    apply_holds reachable.known.begin subjects rfl (fun _ => rfl) fun _ _ _ ended => ended
  have ended := holds.run fates
  rw [returned] at ended
  exact ended.resolve_right harmless

-- Version 1.0.0 is installed and version 1.1.0 is the release.
def versions (directory : Nat) : BuildInfo :=
  if directory = 0 then ⟨"2025-01-01", "aaaa", ⟨1, 0, 0⟩⟩ else ⟨"2025-02-01", "bbbb", ⟨1, 1, 0⟩⟩

theorem apply_keeps_installation_updated :
    Safe 0 1 ((apply .linux).run (Step.outcome versions (versions 1)) (List.replicate 40 true)
      Layout.installed.begin).2 := by
  have returned : (apply .linux).run (Step.outcome versions (versions 1)) (List.replicate 40 true)
      Layout.installed.begin = (some .changed, _) := Prod.ext (by decide) rfl
  refine apply_keeps_installation .installed ⟨rfl, rfl⟩ returned fun harmful => ?_
  cases harmful with
  | lost noted =>
    rename_i site
    revert noted
    cases site <;> decide
  | unmended missing => cases missing
  | aside pending => cases pending
  | resumed pending => cases pending
  | retreated pending => cases pending
  | installed noted => exact absurd noted (by decide)
  | unsynced cleaned noted => exact absurd noted (by decide)
  | unreverted cleaned refused => exact absurd refused (by decide)

theorem apply_loses_installation :
    ∃ final, (apply .linux).run (Step.outcome versions (versions 1))
        (List.replicate 16 true ++ false :: List.replicate 3 true) Layout.installed.begin = (some .failed, final) ∧
      Reachable .linux versions Layout.installed ∧ Subjects Layout.installed 0 1 ∧ ¬Safe 0 1 final := by
  refine ⟨_, Prod.ext (by decide) rfl, .installed, ⟨rfl, rfl⟩, fun safe => ?_⟩
  rcases safe.copy with ⟨place, there⟩ | noted
  · revert there
    rcases place with _ | name | name
    · decide
    · cases name <;> decide
    · cases name <;> decide
  · exact absurd noted (by decide)

end SubConverter.Updater
