import SubConverter.Updater.Exchange

set_option autoImplicit false

namespace SubConverter.Updater

-- The two directories of a transaction, in either order.
def Same (o n x y : Nat) : Prop := x = o ∧ y = n ∨ x = n ∧ y = o

theorem Same.symm {o n x y : Nat} (same : Same o n x y) : Same o n y x := by
  rcases same with ⟨rfl, rfl⟩ | ⟨rfl, rfl⟩
  · exact .inr ⟨rfl, rfl⟩
  · exact .inl ⟨rfl, rfl⟩

inductive Placed (platform : Platform) (right : Counterpart) (o n : Nat) (retained : Option Nat) :
    Option Nat → Option Nat → Option Nat → Prop where
  | transit {x y : Nat} {root other aside : Option Nat} (same : Same o n x y) (stage : Transit x y root other aside)
      (plain : platform = .linux → aside = none) : Placed platform right o n retained root other aside
  | retained {x y : Nat} (same : Same o n x y) (staged : right = .candidate) (here : retained = some y) :
      Placed platform right o n retained (some x) none none
  | blocked {x y z : Nat} (same : Same o n x y) (kept : right = .rollback) (windows : platform = .windows) :
      Placed platform right o n retained (some x) (some y) (some z)

/-- A layout with the pending file of a transaction between the directories `o` and `n`. -/
structure Pending (platform : Platform) (info : Nat → BuildInfo) (tx : PendingTransaction) (o n : Nat)
    (layout : Layout) : Prop where
  plain : platform = .linux → ∀ right, layout.directories (.exchangeOld right) = none
  pending : layout.pending = some tx
  parties : layout.parties = (some o, some n)
  old : tx.old = info o
  new : tx.new = info n
  phase : tx.phase.isRollback = true ↔ tx.candidateRoot = .rollback
  placed : Placed platform tx.candidateRoot o n (layout.directories (.counterpart .rollback))
    (layout.directories .root) (layout.directories (.counterpart tx.candidateRoot))
    (layout.directories (.exchangeOld tx.candidateRoot))

-- The root holds one of the two directories, and the other one is there to go back to.
def Layout.Retains (layout : Layout) (parties : Option Nat × Option Nat) : Prop :=
  ∃ x y, (parties = (some x, some y) ∨ parties = (some y, some x)) ∧
    layout.directories .root = some x ∧ layout.directories (.counterpart .rollback) = some y

def Layout.Retained (layout : Layout) : Prop := layout.Retains layout.parties

theorem Layout.Retained.congr {layout final : Layout} (retained : layout.Retained)
    (parties : final.parties = layout.parties) (root : final.directories .root = layout.directories .root)
    (kept : final.directories (.counterpart .rollback) = layout.directories (.counterpart .rollback)) :
    final.Retained := by
  obtain ⟨x, y, pair, rootIs, keptIs⟩ := retained
  exact ⟨x, y, by rwa [parties], root.trans rootIs, kept.trans keptIs⟩

/-- A layout that the updater can leave behind, at the end of a run or between two of its steps. -/
structure Known (platform : Platform) (info : Nat → BuildInfo) (layout : Layout) : Prop where
  plain : platform = .linux → ∀ right, layout.directories (.exchangeOld right) = none
  pending : ∀ tx, layout.pending = some tx → ∃ o n, Pending platform info tx o n layout
  finished : layout.pending = none → layout.passed ≠ none → layout.Retained

variable {platform : Platform} {info : Nat → BuildInfo} {release : BuildInfo} {tx : PendingTransaction} {o n : Nat}
  {start layout : Layout} {root other aside : Option Nat}

theorem Known.idle (plain : platform = .linux → ∀ right, layout.directories (.exchangeOld right) = none)
    (absent : layout.pending = none) (finished : layout.passed ≠ none → layout.Retained) :
    Known platform info layout where
  plain := plain
  pending tx present := by
    rw [absent] at present
    cases present
  finished _ := finished

theorem Pending.known (here : Pending platform info tx o n layout) : Known platform info layout where
  plain := here.plain
  pending found present := by
    obtain rfl := Option.some.inj (here.pending.symm.trans present)
    exact ⟨o, n, here⟩
  finished absent := by
    rw [here.pending] at absent
    cases absent

theorem Pending.retained {x y : Nat} (here : Pending platform info tx o n layout) (same : Same o n x y)
    (root : layout.directories .root = some x) (kept : layout.directories (.counterpart .rollback) = some y) :
    layout.Retained := by
  refine ⟨x, y, ?_, root, kept⟩
  rw [here.parties]
  rcases same with ⟨rfl, rfl⟩ | ⟨rfl, rfl⟩
  · exact .inl rfl
  · exact .inr rfl

theorem Pending.record (here : Pending platform info tx o n layout) (step : Step) (good : Bool) :
    Pending platform info tx o n (layout.record step good) :=
  ⟨here.plain, here.pending, here.parties, here.old, here.new, here.phase, here.placed⟩

theorem Pending.arranged (here : Pending platform info tx o n start)
    (arranged : Arranged start tx.candidateRoot root other aside layout)
    (plain : platform = .linux → aside = none)
    (placed : Placed platform tx.candidateRoot o n (layout.directories (.counterpart .rollback)) root other aside) :
    Pending platform info tx o n layout where
  plain linux right := by
    by_cases same : right = tx.candidateRoot
    · rw [same, arranged.aside, plain linux]
    · rw [arranged.elsewhere _ (by simp) (by simp) (by simpa using same)]
      exact here.plain linux right
  pending := arranged.pending.trans here.pending
  parties := arranged.parties.trans here.parties
  old := here.old
  new := here.new
  phase := here.phase
  placed := by
    rw [arranged.root, arranged.other, arranged.aside]
    exact placed

inductive Stopped (right : Counterpart) (x y : Nat) (final : Layout) (marks : Marks) : Prop where
  | both {first second : Nat} (same : Same x y first second) (root : final.directories .root = some first)
      (other : final.directories (.counterpart right) = some second)
  | lost (noted : marks.lost = true)
  | unkept (root : final.directories .root = some y) (noted : marks.unkept = true)

section Swap

variable {post : Bool → Layout → Prop} {site : Site} {x y : Nat}

theorem Failure.stopped {right : Counterpart} {marks : Marks} {final : Layout} (failure : Failure x y root other aside marks)
    (arranged : Arranged start right root other aside final) : Stopped right x y final marks := by
  cases failure with
  | unchanged => exact .both (.inl ⟨rfl, rfl⟩) arranged.root arranged.other
  | late => exact .both (.inr ⟨rfl, rfl⟩) arranged.root arranged.other
  | lost => exact .lost rfl
  | unkept => exact .unkept arranged.root rfl

theorem Failure.transit {marks : Marks} (failure : Failure x y root other aside marks) :
    Transit x y root other aside := by
  cases failure with
  | unchanged => exact .before
  | late => exact .after
  | lost => exact .lifted
  | unkept => exact .entered

theorem swap_pending_holds (here : Pending platform info tx o n start) (same : Same o n x y)
    (arranged : Arranged start tx.candidateRoot (some x) (some y) aside layout)
    (clear : aside = none ∨ tx.candidateRoot = .rollback ∧ platform = .windows)
    (blank : layout.summary.marks site = {})
    (failed : ∀ final marks, Pending platform info tx o n final → final.passed = start.passed →
      final.summary = layout.summary.mark site marks → Stopped tx.candidateRoot x y final marks → post false final)
    (swapped : ∀ final marks, Pending platform info tx o n final →
      Arranged start tx.candidateRoot (some y) (some x) none final →
      final.summary = layout.summary.mark site marks → marks.moved = true → post true final) :
    Holds info release (Known platform info) post (atomicSwapDirectories platform tx.candidateRoot site) layout := by
  have inTransit : ∀ final root other aside, Transit x y root other aside → (platform = .linux → aside = none) →
      Arranged start tx.candidateRoot root other aside final → Pending platform info tx o n final :=
    fun final root other aside stage plain moved => here.arranged moved plain (.transit same stage plain)
  cases aside with
  | none =>
    refine swap_holds platform arranged blank ?_ ?_ ?_
    · intro final root other aside stage plain moved
      exact (inTransit final root other aside stage plain moved).known
    · intro final root other aside marks failure plain moved summary
      exact failed final marks (inTransit final root other aside failure.transit plain moved) moved.passed summary
        (failure.stopped moved)
    · intro final marks moved summary noted
      exact swapped final marks (inTransit final _ _ _ .after (fun _ => rfl) moved) moved summary noted
  | some z =>
    obtain ⟨kept, windows⟩ := clear.resolve_left (by simp)
    subst windows
    have stays : ∀ final, Arranged start tx.candidateRoot (some x) (some y) (some z) final →
        Pending .windows info tx o n final := fun final unmoved =>
      here.arranged unmoved nofun (.blocked same kept rfl)
    refine swap_blocked_holds arranged (fun final unmoved => (stays final unmoved).known) ?_
    intro final unmoved summary
    refine failed final {} (stays final unmoved) unmoved.passed ?_ (.both (.inl ⟨rfl, rfl⟩) unmoved.root unmoved.other)
    rw [summary, ← blank, Summary.mark_self]

end Swap

def Layout.front (layout : Layout) (right : Counterpart) : Option Nat :=
  (layout.directories .root).or (layout.directories (.counterpart right))

structure Repaired (platform : Platform) (info : Nat → BuildInfo) (tx : PendingTransaction) (o n : Nat)
    (start final : Layout) (marks : Marks) : Prop where
  pending : Pending platform info tx o n final
  summary : final.summary = start.summary.mark .repair marks
  empty : final.directories .root = none → start.directories .root = none ∧ marks.moved = false
  aside : final.directories (.exchangeOld tx.candidateRoot) ≠ none →
    final.directories (.exchangeOld tx.candidateRoot) = start.directories (.exchangeOld tx.candidateRoot) ∧
      marks.kept = false
  front : ∀ directory, final.directories .root = some directory → start.front tx.candidateRoot = some directory
  passed : final.passed = start.passed

section Repair

variable {post : Bool → Layout → Prop} {x y : Nat}

theorem keep_holds (here : Pending platform info tx o n start) (same : Same o n x y) (windows : platform = .windows)
    (marks : Marks) (fresh : marks.kept = false) (summary : layout.summary = start.summary.mark .repair marks)
    (arranged : Arranged start tx.candidateRoot (some y) none (some x) layout)
    (old : start.directories (.exchangeOld tx.candidateRoot) = some x) (front : start.front tx.candidateRoot = some y)
    (done : ∀ result final marks, Repaired platform info tx o n start final marks → post result final) :
    Holds info release (Known platform info) post
      (perform (.rename (.exchangeOld tx.candidateRoot) (.counterpart tx.candidateRoot) .repair)) layout := by
  subst windows
  have entered : ∀ final, Arranged start tx.candidateRoot (some y) none (some x) final →
      Pending .windows info tx o n final := fun final moved =>
    here.arranged moved nofun (.transit same .entered nofun)
  refine perform_holds (entered layout arranged).known fun good => ?_
  cases good with
  | false =>
    have left := arranged.record
      (.op (.rename (.exchangeOld tx.candidateRoot) (.counterpart tx.candidateRoot) .repair)) false
    refine done _ _ { marks with unkept := true } ⟨entered _ left, ?_, ?_, ?_, ?_, left.passed⟩
    · simp [Op.effect, summary, Summary.note]
    · intro empty
      exact absurd (left.root.symm.trans empty) (by simp)
    · exact fun _ => ⟨left.aside.trans old.symm, fresh⟩
    · intro directory rootIs
      exact front.trans (left.root.symm.trans rootIs)
  | true =>
    have kept := arranged.aside_to_other.record
      (.op (.rename (.exchangeOld tx.candidateRoot) (.counterpart tx.candidateRoot) .repair)) true
    simp only [Op.effect, arranged.holds_aside, arranged.holds_other, Option.isSome_some, Option.isSome_none,
      Bool.false_eq_true, not_false_eq_true, and_self, if_true]
    refine done _ _ { marks with kept := true }
      ⟨here.arranged kept nofun (.transit same .after nofun), ?_, ?_, ?_, ?_, kept.passed⟩
    · simp [summary, Summary.note]
    · intro empty
      exact absurd (kept.root.symm.trans empty) (by simp)
    · intro taken
      exact absurd kept.aside taken
    · intro directory rootIs
      exact front.trans (kept.root.symm.trans rootIs)

theorem repair_windows_holds (here : Pending .windows info tx o n start) (blank : start.summary.marks .repair = {})
    (unmoved : layout.directories = start.directories)
    (arranged : Arranged start tx.candidateRoot root other aside layout) (summary : layout.summary = start.summary)
    {seesRoot seesOther seesOld : Bool} (isRoot : seesRoot = true → root.isSome = true)
    (isOther : seesOther = true → other.isSome = true) (isOld : seesOld = true → aside.isSome = true)
    (done : ∀ result final marks, Repaired .windows info tx o n start final marks → post result final) :
    Holds info release (Known .windows info) post
      (if !seesOld then pure true
      else if !seesRoot && seesOther then
        allOf [.rename (.counterpart tx.candidateRoot) .root .repair,
          .rename (.exchangeOld tx.candidateRoot) (.counterpart tx.candidateRoot) .repair]
      else if seesRoot && !seesOther then
        perform (.rename (.exchangeOld tx.candidateRoot) (.counterpart tx.candidateRoot) .repair)
      else pure false) layout := by
  have untouched : layout.summary = start.summary.mark .repair {} := by
    rw [summary, ← blank, Summary.mark_self]
  have placed := here.placed
  rw [← unmoved, arranged.root, arranged.other, arranged.aside] at placed
  have pending : Pending .windows info tx o n layout := here.arranged arranged nofun placed
  have still : ∀ final marks, Pending .windows info tx o n final → final.directories = layout.directories →
      final.passed = layout.passed → marks.moved = false → marks.kept = false →
      final.summary = start.summary.mark .repair marks → Repaired .windows info tx o n start final marks := by
    intro final marks here same validated unmarked free noted
    rw [unmoved] at same
    refine ⟨here, noted, fun empty => ⟨?_, unmarked⟩, fun _ => ⟨?_, free⟩, fun directory rootIs => ?_,
      validated.trans arranged.passed⟩
    · rw [← same, empty]
    · rw [same]
    · rw [same] at rootIs
      simp [Layout.front, rootIs]
  have asideIs : start.directories (.exchangeOld tx.candidateRoot) = aside := by rw [← unmoved, arranged.aside]
  have nothing : ∀ result, post result layout := fun result =>
    done result layout {} (still layout {} pending rfl rfl rfl rfl untouched)
  cases seesOld with
  | false => exact nothing true
  | true =>
    have present := isOld rfl
    cases placed with
    | retained => simp at present
    | blocked same kept windows =>
      -- Both paths are taken, so neither rename can succeed.
      cases seesRoot <;> cases seesOther
      · exact nothing false
      · refine allOf_cons_holds pending.known (fun good failed => ?_) fun good performed => ?_
        · simp only [Op.effect, arranged.holds_root, Option.isSome_some, not_true_eq_false, and_false, if_false]
          refine done _ _ { stuck := true } (still _ _ (pending.record _ _) rfl rfl rfl rfl ?_)
          simp [Summary.note, untouched]
        · simp [Op.effect, arranged.holds_root] at performed
      · refine perform_holds pending.known fun good => ?_
        simp only [Op.effect, arranged.holds_other, Option.isSome_some, not_true_eq_false, and_false, if_false]
        refine done _ _ { unkept := true } (still _ _ (pending.record _ _) rfl rfl rfl rfl ?_)
        simp [Summary.note, untouched]
      · exact nothing false
    | transit same stage plain =>
      cases stage with
      | before => simp at present
      | after => simp at present
      | lifted =>
        cases seesRoot with
        | true => simp at isRoot
        | false =>
          cases seesOther with
          | false => exact nothing false
          | true =>
            refine allOf_cons_holds pending.known (fun good failed => ?_) fun good performed => ?_
            · cases good with
              | true => simp [Op.effect, arranged.holds_root, arranged.holds_other] at failed
              | false =>
                simp only [Op.effect, Bool.false_eq_true, false_and, if_false]
                refine done _ _ { stuck := true } (still _ _ (pending.record _ _) rfl rfl rfl rfl ?_)
                simp [Summary.note, untouched]
            · cases good with
              | false => simp [Op.effect] at performed
              | true =>
                have entered := arranged.other_to_root.record
                  (.op (.rename (.counterpart tx.candidateRoot) .root .repair)) true
                simp only [Op.effect, arranged.holds_root, arranged.holds_other, Option.isSome_some,
                  Option.isSome_none, Bool.false_eq_true, not_false_eq_true, and_self, if_true]
                refine Script.Keeps.bind (keep_holds here same rfl { moved := true } rfl ?_ entered asideIs ?_ ?_)
                · simp [Summary.note, untouched]
                · rw [Layout.front, ← unmoved, arranged.root, arranged.other]
                  rfl
                · intro result final marks repaired
                  cases result <;> exact done _ final marks repaired
      | entered =>
        cases seesOther with
        | true => simp at isOther
        | false =>
          cases seesRoot with
          | false => exact nothing false
          | true =>
            refine keep_holds here same rfl {} rfl untouched arranged asideIs ?_ done
            rw [Layout.front, ← unmoved, arranged.root]
            rfl

theorem repair_holds (here : Pending platform info tx o n layout) (blank : layout.summary.marks .repair = {})
    (done : ∀ result final marks, Repaired platform info tx o n layout final marks → post result final) :
    Holds info release (Known platform info) post (repairInterruptedSwap platform tx.candidateRoot) layout := by
  cases platform with
  | linux =>
    refine done true layout {}
      ⟨here, ?_, fun empty => ⟨empty, rfl⟩, fun _ => ⟨rfl, rfl⟩, fun directory rootIs => ?_, rfl⟩
    · rw [← blank, Summary.mark_self]
    · simp [Layout.front, rootIs]
  | windows =>
    refine Script.Keeps.bind (look_holds (fun _ => rfl) here.known fun seesRoot => ?_)
    refine Script.Keeps.bind (look_holds (fun _ => rfl) (here.record _ _).known fun seesOther => ?_)
    refine Script.Keeps.bind (look_holds (fun _ => rfl) ((here.record _ _).record _ _).known fun seesOld => ?_)
    refine repair_windows_holds here blank ?_ (((Arranged.refl.record _ _).record _ _).record _ _) ?_ ?_ ?_ ?_ done
    · rfl
    · rfl
    · exact fun sees => (Bool.and_eq_true _ _ ▸ sees).2
    · exact fun sees => (Bool.and_eq_true _ _ ▸ sees).2
    · exact fun sees => (Bool.and_eq_true _ _ ▸ sees).2

end Repair

end SubConverter.Updater
