import SubConverter.Utils.FileReplacement

set_option autoImplicit false

namespace SubConverter.Utils

open Wire (Bytes)
open Handler (FileCommitResult fileCommitFailed)

structure Active where
  writer : Nat
  edit : Edit
  prior : List Change
  before : Option Bytes
  script : FileScript FileCommitResult

structure Finished where
  edit : Edit
  result : FileCommitResult
  before : Option Bytes
  span : List Change
  after : Option Bytes
  temporaryLeft : Bool
  deriving DecidableEq, Repr

structure System where
  directory : Directory
  active : Option Active := none
  finished : List Finished := []

-- While a call runs, changes by others come with the fates of its steps.
inductive Event where
  | enter (writer : Nat) (request : Request)
  | advance (writer : Nat) (fate : Fate)
  | foreign (target : Option TargetFile)
  deriving DecidableEq, Repr

namespace System

def proceed (system : System) (active : Active) : FileScript FileCommitResult → Directory → System
  | .done result, directory =>
    { directory := directory
      finished := system.finished ++ [{
        edit := active.edit
        result := result
        before := active.before
        span := directory.log.drop active.prior.length
        after := directory.content
        temporaryLeft := directory.temporary.isSome }] }
  | .act op next, directory => { system with directory := directory, active := some { active with script := .act op next } }

def enter (platform : Platform) (system : System) (writer : Nat) (request : Request) : System :=
  -- A call uses a temporary name of its own.
  let directory : Directory := { system.directory with temporary := none, edit := request.edit, looked := none, quiet := false }
  system.proceed ⟨writer, request.edit, directory.log, directory.content, request.script platform⟩ (request.script platform) directory

def advance (system : System) (active : Active) (fate : Fate) : FileScript FileCommitResult → System
  | .done _ => system
  | .act op next => system.proceed active (next (op.outcome fate system.directory).1) (op.outcome fate system.directory).2

def step (platform : Platform) (system : System) : Event → System
  | .enter writer request => if system.active.isSome then system else system.enter platform writer request
  | .advance writer fate =>
    match system.active with
    | none => system
    | some active => if active.writer = writer then system.advance active fate active.script else system
  | .foreign target =>
    if system.active.isSome then system else { system with directory := system.directory.disturb (some target) }

def run (platform : Platform) (system : System) (events : List Event) : System := events.foldl (step platform) system

def benignStep (system : System) : Event → Bool
  | .advance writer fate =>
    match system.active with
    | none => true
    | some active =>
      match active.script with
      | .done _ => true
      | .act op _ => active.writer ≠ writer || op.benign fate system.directory
  | _ => true

def benignRun (platform : Platform) : System → List Event → Bool
  | _, [] => true
  | system, event :: events => system.benignStep event && (system.step platform event).benignRun platform events

end System

structure Finished.Right (call : Finished) : Prop where
  after : call.after = replay call.before call.span
  edits : edits call.span = if fileCommitFailed call.result then [] else [call.edit]
  clean : call.result = .failed ∨ call.result = .durable → call.temporaryLeft = false

def committed (finished : List Finished) : List Edit :=
  (finished.filter fun call => !fileCommitFailed call.result).map Finished.edit

structure AllOrNothing (start : Option Bytes) (system : System) : Prop where
  content : system.directory.content = replay start system.directory.log
  edits : system.active = none → edits system.directory.log = committed system.finished
  calls : ∀ call ∈ system.finished, call.Right

section Invariant

variable {platform : Platform} {start : Option Bytes} {system : System} {active : Active}

structure Running (start : Option Bytes) (system : System) (active : Active) : Prop where
  script : Holds start (edits active.prior) active.edit (Ended start (edits active.prior) active.edit) active.script system.directory
  before : active.before = replay start active.prior
  log : active.prior <+: system.directory.log
  past : edits active.prior = committed system.finished

structure Sound (start : Option Bytes) (system : System) : Prop extends AllOrNothing start system where
  running : ∀ active, system.active = some active → Running start system active

theorem edits_append (first second : List Change) : edits (first ++ second) = edits first ++ edits second := by
  simp [edits]

theorem replay_append (start : Option Bytes) (first second : List Change) :
    replay start (first ++ second) = replay (replay start first) second := by
  simp [replay]

theorem disturb_log (directory : Directory) (change : Option (Option TargetFile)) :
    directory.log <+: (directory.disturb change).log := by
  cases change with
  | none => exact List.prefix_rfl
  | some target => exact List.prefix_append _ _

theorem outcome_log (op : FileStep) (fate : Fate) (before : Directory) : before.log <+: (op.outcome fate before).2.log := by
  have kept := disturb_log before fate.change
  have grown : ∀ change, before.log <+: (before.disturb fate.change).log ++ [change] := fun change =>
    kept.trans (List.prefix_append _ _)
  cases op <;> simp only [FileStep.outcome] <;> (try split) <;> (try split) <;>
    first | exact kept | exact grown _

theorem Sound.proceed {script : FileScript FileCommitResult} {directory : Directory}
    (calls : ∀ call ∈ system.finished, call.Right)
    (holds : Holds start (edits active.prior) active.edit (Ended start (edits active.prior) active.edit) script directory)
    (before : active.before = replay start active.prior) (log : active.prior <+: directory.log)
    (past : edits active.prior = committed system.finished) : Sound start (system.proceed active script directory) := by
  cases script with
  | act op next =>
    obtain ⟨done, state⟩ := holds.1
    refine ⟨⟨state.content, nofun, calls⟩, fun current running => ?_⟩
    obtain rfl := Option.some.inj running
    exact ⟨holds, before, log, past⟩
  | done result =>
    obtain ⟨state, clean⟩ : Ended start (edits active.prior) active.edit result directory := holds
    obtain ⟨span, whole⟩ := log
    have made : edits span = if fileCommitFailed result then [] else [active.edit] := by
      have total := state.edits
      rw [← whole, edits_append] at total
      rw [List.append_cancel_left total]
      cases fileCommitFailed result <;> rfl
    refine ⟨⟨state.content, fun _ => ?_, ?_⟩, fun current running => by cases running⟩
    · rw [show (system.proceed active (.done result) directory).directory = directory from rfl, state.edits, past]
      cases failed : fileCommitFailed result <;> simp [System.proceed, committed, failed]
    · intro call there
      rcases List.mem_append.mp there with there | there
      · exact calls call there
      · obtain rfl := List.mem_singleton.mp there
        have spanned : directory.log.drop active.prior.length = span := by rw [← whole, List.drop_left]
        refine ⟨?_, by rw [spanned, made], fun ended => by rw [clean ended]; rfl⟩
        rw [spanned, before, ← replay_append, whole]
        exact state.content

theorem Sound.enter (sound : Sound start system) (idle : system.active = none) (writer : Nat) (request : Request) :
    Sound start (system.enter platform writer request) := by
  refine Sound.proceed sound.calls (request_holds platform request ?_ rfl) ?_ List.prefix_rfl ?_
  · exact ⟨sound.content, by simp, rfl⟩
  · exact sound.content
  · exact sound.edits idle

theorem Sound.advance (sound : Sound start system) (current : system.active = some active) {fate : Fate}
    {script : FileScript FileCommitResult} (same : active.script = script)
    (benign : ∀ op next, script = .act op next → op.benign fate system.directory = true) :
    Sound start (system.advance active fate script) := by
  have running := sound.running active current
  cases script with
  | done result => exact sound
  | act op next =>
    have holds := running.script
    rw [same] at holds
    exact Sound.proceed sound.calls (holds.2 fate (benign op next rfl)) running.before
      (running.log.trans (outcome_log op fate system.directory)) running.past

theorem Sound.disturb (sound : Sound start system) (idle : system.active = none) (target : Option TargetFile) :
    Sound start { system with directory := system.directory.disturb (some target) } := by
  refine ⟨⟨?_, fun _ => ?_, sound.calls⟩, fun active running => ?_⟩
  · rw [Directory.disturb, replay_concat]
    rfl
  · exact (edits_foreign _ _).trans (sound.edits idle)
  · rw [idle] at running
    cases running

theorem Sound.step (sound : Sound start system) {event : Event} (benign : system.benignStep event = true) :
    Sound start (system.step platform event) := by
  cases event with
  | enter writer request =>
    cases idle : system.active with
    | none => simpa [System.step, idle] using sound.enter idle writer request
    | some active => simpa [System.step, idle] using sound
  | foreign target =>
    cases idle : system.active with
    | none => simpa [System.step, idle] using sound.disturb idle target
    | some active => simpa [System.step, idle] using sound
  | advance writer fate =>
    cases current : system.active with
    | none => simpa [System.step, current] using sound
    | some active =>
      simp only [System.step, current]
      split
      · rename_i owner
        refine sound.advance current rfl fun op next act => ?_
        simpa [System.benignStep, current, act, owner] using benign
      · exact sound

theorem Sound.run (sound : Sound start system) {events : List Event} (benign : system.benignRun platform events = true) :
    Sound start (system.run platform events) := by
  induction events generalizing system with
  | nil => exact sound
  | cons event events ih =>
    rw [System.benignRun, Bool.and_eq_true] at benign
    exact ih (sound.step benign.1) benign.2

end Invariant

theorem file_replacement_all_or_nothing (platform : Platform) (target : Option TargetFile) (events : List Event)
    (benign : System.benignRun platform { directory := { target := target } } events = true) :
    AllOrNothing (target.map TargetFile.content) (System.run platform { directory := { target := target } } events) := by
  have sound : Sound (target.map TargetFile.content) { directory := { target := target } } :=
    ⟨⟨rfl, fun _ => rfl, by simp⟩, fun active running => by cases running⟩
  exact (sound.run benign).toAllOrNothing

def twoAppends : List Event :=
  [.enter 1 (.write [2] false), .enter 2 (.write [3] false)] ++ List.replicate 16 (.advance 1 {}) ++
    [.enter 2 (.write [3] false)] ++ List.replicate 16 (.advance 2 {})

theorem file_replacement_all_or_nothing_two_appends :
    AllOrNothing (some [1]) (System.run .posix { directory := { target := some ⟨[1], 7⟩ } } twoAppends) ∧
      (System.run .posix { directory := { target := some ⟨[1], 7⟩ } } twoAppends).directory.content = some [1, 2, 3] :=
  ⟨file_replacement_all_or_nothing .posix (some ⟨[1], 7⟩) twoAppends (by decide), by decide⟩

def lostReplacement : List Event :=
  [.enter 1 (.write [2] true)] ++ List.replicate 10 (.advance 1 {}) ++
    [.advance 1 { fails := true, gone := true }, .advance 1 {}]

def lateChange : List Event :=
  [.enter 1 (.write [2] false)] ++ List.replicate 14 (.advance 1 {}) ++
    [.advance 1 { change := some (some ⟨[9], 8⟩) }, .advance 1 {}]

theorem file_replacement_loses :
    ¬AllOrNothing (some [1]) (System.run .windows { directory := { target := some ⟨[1], 7⟩ } } lostReplacement) ∧
      (System.run .windows { directory := { target := some ⟨[1], 7⟩ } } lostReplacement).finished =
        [⟨.overwrite [2], .failed, some [1], [], none, false⟩] ∧
      ¬AllOrNothing (some [1]) (System.run .posix { directory := { target := some ⟨[1], 7⟩ } } lateChange) :=
  ⟨fun right => absurd right.content (by decide), by decide,
    fun right => absurd right.content (by decide)⟩

end SubConverter.Utils
