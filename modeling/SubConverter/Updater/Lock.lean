import Mathlib.Data.PNat.Basic
import Mathlib.Tactic

set_option autoImplicit false

namespace SubConverter.Updater

structure LockFile (Proc : Type) where
  number : Nat
  creator : Proc
  content : Option Int
  deriving DecidableEq

structure LockDirectory (Proc : Type) where
  lockPath : Option (LockFile Proc) := none
  files : Nat := 0
  deriving DecidableEq

/-- Where a process stands in `withLock`. -/
inductive Stage where
  | idle
  | creating
  | reading
  | judging (seen : Option (Nat × Option Int))
  | removing (seen : Option Nat)
  | writing (file : Nat)
  | syncing (file : Nat)
  | operating (file : Nat)
  | releasing (file : Nat)
  | returned
  | dead
  deriving DecidableEq, Repr

namespace Stage

-- A process that has not been started yet is not live.
def live : Stage → Bool
  | .idle | .dead => false
  | _ => true

-- The lock file that the process has created and not yet removed.
def holds : Stage → Option Nat
  | .writing file | .syncing file | .operating file | .releasing file => some file
  | _ => none

theorem live_of_holds {stage : Stage} {file : Nat} (holding : stage.holds = some file) : stage.live := by
  cases stage <;> first | rfl | cases holding

end Stage

/-- One file-system step of `withLock`; `failed` says that it reports an error for a reason of its own. -/
inductive Action where
  | start
  | create (failed : Bool)
  | read (failed : Bool)
  | processAlive (alive : Bool)
  | removeStale (failed : Bool)
  | writePid (failed : Bool) (left : Option Int)
  | sync (failed : Bool)
  | finish
  | release (failed : Bool)
  | die
  deriving DecidableEq, Repr

variable {Proc : Type}

namespace LockDirectory

def create (directory : LockDirectory Proc) (creator : Proc) : LockDirectory Proc where
  lockPath := some ⟨directory.files, creator, none⟩
  files := directory.files + 1

def write (directory : LockDirectory Proc) (number : Nat) (content : Option Int) : LockDirectory Proc :=
  { directory with lockPath := directory.lockPath.map fun file =>
      if file.number = number then { file with content } else file }

def remove (directory : LockDirectory Proc) : LockDirectory Proc := { directory with lockPath := none }

end LockDirectory

/-- What a step of `withLock` makes of the process that takes it and of the lock path. -/
def withLock (self : Proc) (pid : Int) (directory : LockDirectory Proc) :
    Stage → Action → Option (Stage × LockDirectory Proc)
  | .idle, .start => some (.creating, directory)
  | .creating, .create failed =>
    if failed then some (.returned, directory)
    else if directory.lockPath.isSome then some (.reading, directory)
    else some (.writing directory.files, directory.create self)
  | .reading, .read failed =>
    if failed then some (.judging none, directory)
    else some (.judging (directory.lockPath.map fun file => (file.number, file.content)), directory)
  | .judging seen, .processAlive alive =>
    -- Without a number there is no process to ask about, and the lock counts as stale.
    if (seen.bind (·.2)).isSome ∧ alive then some (.returned, directory)
    else some (.removing (seen.map (·.1)), directory)
  | .removing _, .removeStale failed =>
    if failed ∨ directory.lockPath.isNone then some (.returned, directory)
    else some (.creating, directory.remove)
  | .writing file, .writePid failed left =>
    if failed then some (.releasing file, directory.write file left)
    else some (.syncing file, directory.write file (some pid))
  | .syncing file, .sync failed => some (if failed then .releasing file else .operating file, directory)
  | .operating file, .finish => some (.releasing file, directory)
  | .releasing _, .release failed => some (.returned, if failed then directory else directory.remove)
  | .idle, .die | .dead, .die => none
  | _, .die => some (.dead, directory)
  | _, _ => none

-- A stage that remembers nothing of the lock file but the one it holds.
def Stage.plain : Stage → Bool
  | .idle | .judging _ | .removing _ => false
  | _ => true

/-- The kinds of step: those that leave the lock path alone, and those that read or change it. -/
inductive Effect (self : Proc) (directory : LockDirectory Proc) :
    Stage → Action → Stage → LockDirectory Proc → Prop where
  | quiet {stage after : Stage} {action : Action} (plain : after.plain)
      (holds : after.holds = stage.holds ∨ after.holds = none) : Effect self directory stage action after directory
  | read {stage : Stage} : Effect self directory stage (.read false)
      (.judging (directory.lockPath.map fun file => (file.number, file.content))) directory
  | unread {stage : Stage} {action : Action} : Effect self directory stage action (.judging none) directory
  | judged {seen : Option (Nat × Option Int)} {alive : Bool} (dead : (seen.bind (·.2)).isSome → alive = false) :
      Effect self directory (.judging seen) (.processAlive alive) (.removing (seen.map (·.1))) directory
  | removed {seen : Option Nat} (present : directory.lockPath.isSome) :
      Effect self directory (.removing seen) (.removeStale false) .creating directory.remove
  | released {file : Nat} :
      Effect self directory (.releasing file) (.release false) .returned directory.remove
  | created {stage : Stage} {action : Action} (absent : directory.lockPath = none) :
      Effect self directory stage action (.writing directory.files) (directory.create self)
  | written {file : Nat} {action : Action} {after : Stage} {content : Option Int} (plain : after.plain)
      (holds : after.holds = some file) :
      Effect self directory (.writing file) action after (directory.write file content)

theorem withLock_effect {self : Proc} {pid : Int} {directory next : LockDirectory Proc} {stage after : Stage}
    {action : Action} (stepped : withLock self pid directory stage action = some (after, next)) :
    Effect self directory stage action after next := by
  unfold withLock at stepped
  split at stepped
  case h_1 =>
    obtain ⟨rfl, rfl⟩ := by simpa using stepped
    exact .quiet rfl (.inl rfl)
  case h_2 failed =>
    split_ifs at stepped with broken taken
    · obtain ⟨rfl, rfl⟩ := by simpa using stepped
      exact .quiet rfl (.inl rfl)
    · obtain ⟨rfl, rfl⟩ := by simpa using stepped
      exact .quiet rfl (.inl rfl)
    · obtain ⟨rfl, rfl⟩ := by simpa using stepped
      exact .created (by simpa using taken)
  case h_3 failed =>
    cases failed with
    | true =>
      obtain ⟨rfl, rfl⟩ := by simpa using stepped
      exact .unread
    | false =>
      obtain ⟨rfl, rfl⟩ := by simpa using stepped
      exact .read
  case h_4 seen alive =>
    split_ifs at stepped with refused
    · obtain ⟨rfl, rfl⟩ := by simpa using stepped
      exact .quiet rfl (.inr rfl)
    · obtain ⟨rfl, rfl⟩ := by simpa using stepped
      exact .judged fun asked => by simpa [asked] using refused
  case h_5 seen failed =>
    split_ifs at stepped with refused
    · obtain ⟨rfl, rfl⟩ := by simpa using stepped
      exact .quiet rfl (.inr rfl)
    · obtain ⟨rfl, rfl⟩ := by simpa using stepped
      simp only [not_or, Bool.not_eq_true, Option.isNone_eq_false_iff] at refused
      rw [refused.1]
      exact .removed refused.2
  case h_6 file failed left =>
    split_ifs at stepped with broken
    · obtain ⟨rfl, rfl⟩ := by simpa using stepped
      exact .written rfl rfl
    · obtain ⟨rfl, rfl⟩ := by simpa using stepped
      exact .written rfl rfl
  case h_7 file failed =>
    obtain ⟨rfl, rfl⟩ := by simpa using stepped
    cases failed <;> exact .quiet rfl (.inl rfl)
  case h_8 file =>
    obtain ⟨rfl, rfl⟩ := by simpa using stepped
    exact .quiet rfl (.inl rfl)
  case h_9 file failed =>
    cases failed with
    | true =>
      obtain ⟨rfl, rfl⟩ := by simpa using stepped
      exact .quiet rfl (.inr rfl)
    | false =>
      obtain ⟨rfl, rfl⟩ := by simpa using stepped
      exact .released
  case h_10 => cases stepped
  case h_11 => cases stepped
  case h_12 =>
    obtain ⟨rfl, rfl⟩ := by simpa using stepped
    exact .quiet rfl (.inr rfl)
  case h_13 => cases stepped

structure Processes (Proc : Type) where
  stage : Proc → Stage
  directory : LockDirectory Proc

namespace Processes

variable [DecidableEq Proc]

def step (pid : Proc → ℕ+) (processes : Processes Proc) (self : Proc) (action : Action) : Option (Processes Proc) :=
  (withLock self (pid self) processes.directory (processes.stage self) action).map fun (stage, directory) =>
    { stage := Function.update processes.stage self stage, directory }

def Live (processes : Processes Proc) (proc : Proc) : Prop := (processes.stage proc).live

def Truthful (pid : Proc → ℕ+) (processes : Processes Proc) (self : Proc) : Action → Prop
  | .processAlive alive => ∀ number asked, processes.stage self = .judging (some (number, some asked)) →
    (asked < 1 → alive = false) ∧ (alive = false → ∀ proc, processes.Live proc → asked ≠ pid proc)
  | _ => True

structure Initial (processes : Processes Proc) : Prop where
  resting : ∀ proc, processes.stage proc = .idle ∨ processes.stage proc = .dead
  leftOver : ∀ file, processes.directory.lockPath = some file →
    processes.stage file.creator = .dead ∧ file.number < processes.directory.files

/-- The steps that go wrong are left out: a read of a lock file whose live creator has not written its process
number yet, and the removal of a stale lock that a live process has replaced since it was read. -/
def Undisturbed (pid : Proc → ℕ+) (processes : Processes Proc) (self : Proc) : Action → Prop
  | .read false => ∀ file, processes.directory.lockPath = some file → processes.Live file.creator →
    file.content = some (pid file.creator : Int)
  | .removeStale false => ∀ file, processes.directory.lockPath = some file → processes.Live file.creator →
    processes.stage self = .removing (some file.number)
  | _ => True

/-- The processes that can be reached by steps that `allowed` admits. -/
inductive Reachable (pid : Proc → ℕ+) (allowed : Processes Proc → Proc → Action → Prop) : Processes Proc → Prop where
  | start {processes : Processes Proc} (initial : processes.Initial) : Reachable pid allowed processes
  | step {processes next : Processes Proc} {self : Proc} {action : Action}
      (reachable : Reachable pid allowed processes) (truthful : processes.Truthful pid self action)
      (admitted : allowed processes self action) (stepped : processes.step pid self action = some next) :
      Reachable pid allowed next

structure Sound (pid : Proc → ℕ+) (processes : Processes Proc) : Prop where
  numbered : ∀ file, processes.directory.lockPath = some file →
    file.number < processes.directory.files ∧ processes.stage file.creator ≠ .idle
  held : ∀ proc number, (processes.stage proc).holds = some number →
    ∃ content, processes.directory.lockPath = some ⟨number, proc, content⟩
  judged : ∀ proc number content, processes.stage proc = .judging (some (number, content)) →
    number < processes.directory.files ∧ ∀ file, processes.directory.lockPath = some file → file.number = number →
      processes.Live file.creator → content = some (pid file.creator : Int)
  stale : ∀ proc number, processes.stage proc = .removing (some number) →
    number < processes.directory.files ∧ ∀ file, processes.directory.lockPath = some file → file.number = number →
      ¬processes.Live file.creator

variable {pid : Proc → ℕ+} {processes next : Processes Proc} {self : Proc} {action : Action}

omit [DecidableEq Proc] in
theorem Initial.sound (initial : processes.Initial) : processes.Sound pid where
  numbered file present := by
    obtain ⟨dead, below⟩ := initial.leftOver file present
    exact ⟨below, by simp [dead]⟩
  held proc number holds := by
    rcases initial.resting proc with resting | resting <;> simp [resting, Stage.holds] at holds
  judged proc number content judging := by
    rcases initial.resting proc with resting | resting <;> simp [resting] at judging
  stale proc number removing := by
    rcases initial.resting proc with resting | resting <;> simp [resting] at removing

theorem Sound.live_before (sound : processes.Sound pid) (awake : processes.stage self ≠ .dead) {stage : Stage}
    {directory : LockDirectory Proc} {file : LockFile Proc} (present : processes.directory.lockPath = some file)
    (live : Processes.Live ⟨Function.update processes.stage self stage, directory⟩ file.creator) :
    processes.Live file.creator := by
  unfold Live at live ⊢
  by_cases same : file.creator = self
  · have busy := (sound.numbered file present).2
    rw [same] at busy ⊢
    cases here : processes.stage self <;> simp_all [Stage.live]
  · simpa [Function.update_of_ne same] using live

theorem Sound.keep (sound : processes.Sound pid) (awake : processes.stage self ≠ .dead) {stage : Stage}
    {directory : LockDirectory Proc} (files : directory.files = processes.directory.files) (busy : stage ≠ .idle)
    (kept : ∀ file, directory.lockPath = some file →
      ∃ content, processes.directory.lockPath = some { file with content })
    (heldAfter : ∀ proc number, (Function.update processes.stage self stage proc).holds = some number →
      ∃ content, directory.lockPath = some ⟨number, proc, content⟩)
    (judgedAfter : ∀ number content, stage = .judging (some (number, content)) →
      number < processes.directory.files ∧ ∀ file, processes.directory.lockPath = some file → file.number = number →
        processes.Live file.creator → content = some (pid file.creator : Int))
    (staleAfter : ∀ number, stage = .removing (some number) →
      number < processes.directory.files ∧ ∀ file, processes.directory.lockPath = some file → file.number = number →
        ¬processes.Live file.creator) :
    Sound pid ⟨Function.update processes.stage self stage, directory⟩ where
  numbered file present := by
    obtain ⟨content, before⟩ := kept file present
    have old := sound.numbered _ before
    refine ⟨files ▸ old.1, ?_⟩
    by_cases same : file.creator = self
    · simpa [same] using busy
    · simpa [Function.update_of_ne same] using old.2
  held := heldAfter
  judged proc number content judging := by
    rw [files]
    have old : number < processes.directory.files ∧ ∀ file, processes.directory.lockPath = some file →
        file.number = number → processes.Live file.creator → content = some (pid file.creator : Int) := by
      by_cases same : proc = self
      · subst same
        exact judgedAfter number content (by simpa using judging)
      · exact sound.judged proc number content (by simpa [Function.update_of_ne same] using judging)
    refine ⟨old.1, fun file present numbered live => ?_⟩
    obtain ⟨earlier, before⟩ := kept file present
    exact old.2 ⟨file.number, file.creator, earlier⟩ before numbered (sound.live_before awake before live)
  stale proc number removing := by
    rw [files]
    have old : number < processes.directory.files ∧ ∀ file, processes.directory.lockPath = some file →
        file.number = number → ¬processes.Live file.creator := by
      by_cases same : proc = self
      · subst same
        exact staleAfter number (by simpa using removing)
      · exact sound.stale proc number (by simpa [Function.update_of_ne same] using removing)
    refine ⟨old.1, fun file present numbered live => ?_⟩
    obtain ⟨earlier, before⟩ := kept file present
    exact old.2 ⟨file.number, file.creator, earlier⟩ before numbered (sound.live_before awake before live)

omit [DecidableEq Proc] in
theorem Sound.held_unique (sound : processes.Sound pid) {first second : Proc} {number other : Nat}
    (firstHolds : (processes.stage first).holds = some number)
    (secondHolds : (processes.stage second).holds = some other) : first = second := by
  obtain ⟨content, present⟩ := sound.held first number firstHolds
  obtain ⟨content', again⟩ := sound.held second other secondHolds
  exact congrArg LockFile.creator (Option.some.inj (present.symm.trans again))

theorem Sound.held_update (sound : processes.Sound pid) {stage : Stage}
    (holds : stage.holds = (processes.stage self).holds ∨ stage.holds = none) (proc : Proc) (number : Nat)
    (held : (Function.update processes.stage self stage proc).holds = some number) :
    ∃ content, processes.directory.lockPath = some ⟨number, proc, content⟩ := by
  by_cases same : proc = self
  · subst same
    rw [Function.update_self] at held
    rcases holds with unchanged | nothing
    · exact sound.held proc number (unchanged ▸ held)
    · rw [nothing] at held
      cases held
  · rw [Function.update_of_ne same] at held
    exact sound.held proc number held

theorem Sound.create (sound : processes.Sound pid) (absent : processes.directory.lockPath = none) :
    Sound pid ⟨Function.update processes.stage self (.writing processes.directory.files),
      processes.directory.create self⟩ where
  numbered file present := by
    obtain rfl := Option.some.inj present
    simp [LockDirectory.create]
  held proc number held := by
    by_cases same : proc = self
    · subst same
      simp only [Function.update_self, Stage.holds, Option.some.injEq] at held
      exact ⟨none, by rw [← held]; rfl⟩
    · simp only [Function.update_of_ne same] at held
      obtain ⟨content, present⟩ := sound.held proc number held
      rw [absent] at present
      cases present
  judged proc number content judging := by
    by_cases same : proc = self
    · subst same
      simp at judging
    · simp only [Function.update_of_ne same] at judging
      have below := (sound.judged proc number content judging).1
      refine ⟨Nat.lt_succ_of_lt below, fun file present numbered => ?_⟩
      obtain rfl := Option.some.inj present
      simp only at numbered
      omega
  stale proc number removing := by
    by_cases same : proc = self
    · subst same
      simp at removing
    · simp only [Function.update_of_ne same] at removing
      have below := (sound.stale proc number removing).1
      refine ⟨Nat.lt_succ_of_lt below, fun file present numbered => ?_⟩
      obtain rfl := Option.some.inj present
      simp only at numbered
      omega

theorem Sound.step (sound : processes.Sound pid) (truthful : processes.Truthful pid self action)
    (undisturbed : processes.Undisturbed pid self action) (stepped : processes.step pid self action = some next) :
    next.Sound pid := by
  obtain ⟨⟨stage, directory⟩, moved, rfl⟩ := Option.map_eq_some_iff.mp stepped
  have awake : processes.stage self ≠ .dead := by
    intro dead
    rw [dead] at moved
    cases action <;> simp [withLock] at moved
  have effect := withLock_effect moved
  have untouched : ∀ file, processes.directory.lockPath = some file →
      ∃ content, processes.directory.lockPath = some { file with content } := fun file present =>
    ⟨file.content, present⟩
  generalize before : processes.stage self = old at effect
  cases effect with
  | quiet plain holds =>
    refine sound.keep awake rfl ?_ untouched (sound.held_update (before ▸ holds)) ?_ ?_
    · rintro rfl
      cases plain
    · rintro number content rfl
      cases plain
    · rintro number rfl
      cases plain
  | read =>
    refine sound.keep awake rfl (by simp) untouched (sound.held_update (.inr rfl)) ?_ (by simp)
    intro number content read
    obtain ⟨file, present, same⟩ := Option.map_eq_some_iff.mp (Stage.judging.inj read)
    obtain ⟨rfl, rfl⟩ := Prod.mk.inj same
    refine ⟨(sound.numbered file present).1, fun current here _ live => ?_⟩
    obtain rfl := Option.some.inj (present.symm.trans here)
    exact undisturbed file present live
  | unread => exact sound.keep awake rfl (by simp) untouched (sound.held_update (.inr rfl)) (by simp) (by simp)
  | @judged seen alive dead =>
    refine sound.keep awake rfl (by simp) untouched (sound.held_update (.inr rfl)) (by simp) ?_
    intro number stale
    obtain ⟨⟨_, content⟩, rfl, rfl⟩ := Option.map_eq_some_iff.mp (Stage.removing.inj stale)
    obtain ⟨below, read⟩ := sound.judged self _ content before
    refine ⟨below, fun file present numbered live => ?_⟩
    obtain rfl := read file present numbered live
    exact (truthful _ _ before).2 (dead rfl) file.creator live rfl
  | @removed seen present =>
    refine sound.keep awake rfl (by simp) (by simp [LockDirectory.remove]) ?_ (by simp) (by simp)
    intro proc number held
    by_cases same : proc = self
    · subst same
      simp [Stage.holds] at held
    · -- The holder is live, so the file is the one that was judged, and its creator is not.
      rw [Function.update_of_ne same] at held
      obtain ⟨content, here⟩ := sound.held proc number held
      have live : processes.Live proc := Stage.live_of_holds held
      have judged := undisturbed _ here live
      exact absurd live ((sound.stale self number judged).2 _ here rfl)
  | @released file =>
    refine sound.keep awake rfl (by simp) (by simp [LockDirectory.remove]) ?_ (by simp) (by simp)
    intro proc number held
    by_cases same : proc = self
    · subst same
      simp [Stage.holds] at held
    · rw [Function.update_of_ne same] at held
      exact absurd (sound.held_unique held (by rw [before]; rfl)) same
  | created absent => exact sound.create absent
  | @written file action after content plain holds =>
    have mine : (processes.stage self).holds = some file := by rw [before]; rfl
    obtain ⟨earlier, here⟩ := sound.held self file mine
    refine sound.keep awake rfl ?_ ?_ ?_ ?_ ?_
    · rintro rfl
      cases plain
    · intro current present
      simp only [LockDirectory.write, here, Option.map_some, if_true, Option.some.injEq] at present
      exact ⟨earlier, by rw [here, ← present]⟩
    · intro proc number held
      obtain ⟨_, found⟩ := sound.held_update (.inl (holds.trans mine.symm)) proc number held
      obtain ⟨rfl, rfl, -⟩ := LockFile.mk.inj (Option.some.inj (here.symm.trans found))
      exact ⟨content, by simp [LockDirectory.write, here]⟩
    · rintro number content rfl
      cases plain
    · rintro number rfl
      cases plain

theorem Reachable.sound (reachable : Reachable pid (Undisturbed pid) processes) : processes.Sound pid := by
  induction reachable with
  | start initial => exact initial.sound
  | step _ truthful undisturbed stepped sound => exact sound.step truthful undisturbed stepped

theorem Sound.removes_own (sound : processes.Sound pid) (undisturbed : processes.Undisturbed pid self action)
    (stepped : processes.step pid self action = some next) {file : LockFile Proc}
    (present : processes.directory.lockPath = some file) (gone : next.directory.lockPath = none) :
    file.creator = self ∨ ¬processes.Live file.creator := by
  obtain ⟨⟨stage, directory⟩, moved, rfl⟩ := Option.map_eq_some_iff.mp stepped
  have effect := withLock_effect moved
  generalize before : processes.stage self = old at effect
  cases effect with
  | quiet | read | unread | judged =>
    rw [present] at gone
    cases gone
  | created absent =>
    rw [present] at absent
    cases absent
  | written =>
    simp [LockDirectory.write, present] at gone
  | removed =>
    refine .inr fun live => ?_
    exact (sound.stale self file.number (undisturbed file present live)).2 file present rfl live
  | @released number =>
    obtain ⟨content, here⟩ := sound.held self number (by rw [before]; rfl)
    exact .inl (congrArg LockFile.creator (Option.some.inj (present.symm.trans here)))

theorem lock_exclusive_undisturbed (pid : Proc → ℕ+) (processes : Processes Proc)
    (reachable : Reachable pid (Undisturbed pid) processes) :
    (∀ first second number other, processes.stage first = .operating number →
        processes.stage second = .operating other → first = second) ∧
      ∀ self action next file, processes.Truthful pid self action → processes.Undisturbed pid self action →
        processes.step pid self action = some next → processes.directory.lockPath = some file →
        next.directory.lockPath = none → file.creator = self ∨ ¬processes.Live file.creator := by
  have sound := reachable.sound
  refine ⟨?_, ?_⟩
  · intro first second number other firstRuns secondRuns
    exact sound.held_unique (by rw [firstRuns]; rfl) (by rw [secondRuns]; rfl)
  · intro self action next file _ undisturbed stepped present gone
    exact sound.removes_own undisturbed stepped present gone

theorem Reachable.take {allowed : Processes Proc → Proc → Action → Prop} (reachable : Reachable pid allowed processes)
    (self : Proc) (action : Action) (truthful : processes.Truthful pid self action)
    (admitted : allowed processes self action) (stepped : processes.step pid self action = some next) :
    Reachable pid allowed next := .step reachable truthful admitted stepped

def twoPids (second : Bool) : ℕ+ := if second then 2 else 1

def twoIdle : Processes Bool := ⟨fun _ => .idle, {}⟩

theorem twoIdle_initial : twoIdle.Initial := ⟨fun _ => .inl rfl, fun _ absent => by cases absent⟩

-- The second process reads the number that the first one has written, and is turned away.
theorem lock_exclusive_undisturbed_contended :
    ∃ processes, Reachable twoPids (Undisturbed twoPids) processes ∧ processes.stage false = .operating 0 ∧
      processes.stage true = .returned ∧ ∀ second other, processes.stage second = .operating other → false = second := by
  have start : Reachable twoPids (Undisturbed twoPids) twoIdle := .start twoIdle_initial
  have created := (start.take false .start trivial trivial rfl).take false (.create false) trivial trivial rfl
  have written := created.take false (.writePid false none) trivial trivial rfl
  have met := (written.take true .start trivial trivial rfl).take true (.create false) trivial trivial rfl
  have read := met.take true (.read false) trivial (fun file present _ => by cases present; rfl) rfl
  have refused := read.take true (.processAlive true)
    (fun number asked judging => by cases judging; exact ⟨by decide, nofun⟩) trivial rfl
  have ended := refused.take false (.sync false) trivial trivial rfl
  exact ⟨_, ended, rfl, rfl, fun second other =>
    (lock_exclusive_undisturbed twoPids _ ended).1 false second 0 other rfl⟩

theorem lock_overlap : ∃ processes : Processes Bool, Reachable twoPids (fun _ _ _ => True) processes ∧
    processes.stage false = .operating 0 ∧ processes.stage true = .operating 1 := by
  have start : Reachable twoPids (fun _ _ _ => True) twoIdle := .start twoIdle_initial
  have created := (start.take false .start trivial trivial rfl).take false (.create false) trivial trivial rfl
  have read := ((created.take true .start trivial trivial rfl).take true (.create false) trivial trivial rfl).take true
    (.read false) trivial trivial rfl
  have judged := read.take true (.processAlive false) (fun _ _ stage => by cases stage) trivial rfl
  have replaced := (judged.take true (.removeStale false) trivial trivial rfl).take true (.create false) trivial trivial rfl
  have second := (replaced.take true (.writePid false none) trivial trivial rfl).take true (.sync false) trivial trivial rfl
  have first := (second.take false (.writePid false none) trivial trivial rfl).take false (.sync false) trivial trivial rfl
  exact ⟨_, first, rfl, rfl⟩

end Processes

end SubConverter.Updater
