import SubConverter.Utils.FileSteps

set_option autoImplicit false

namespace SubConverter.Utils

open Wire (Bytes)
open Handler (FileCommitResult fileCommitFailed)

def act (op : FileStep) : FileScript op.Answer := .act op .done

-- The second step is taken only when the first one succeeded.
def both (first second : FileScript Bool) : FileScript Bool := do
  if ← first then second else pure false

def removeNow : FileScript FileCommitResult := do
  if ← act .removeTemporary then pure .failed else pure .failedTemporaryRemaining

inductive Opened where
  | opened
  | failed
  | cleanupFailed
  deriving DecidableEq, Repr

def openUniqueTemporaryFile : Nat → FileScript Opened
  | 0 => pure .failed
  | attempts + 1 => do
    match ← act .create with
    | .created =>
      if ← act .fdopen then pure .opened
      else if ← act .removeTemporary then pure .failed
      else pure .cleanupFailed
    | .taken => openUniqueTemporaryFile attempts
    | .failed => pure .failed

-- Every round but the last one writes a byte at least, so the rounds do not run out.
def writeRounds : Nat → Bytes → FileScript Bool
  | 0, _ => pure true
  | rounds + 1, bytes =>
    if bytes = [] then pure true
    else do
      let written ← act (.write bytes)
      if written = (0 : Nat) then pure false else writeRounds rounds (bytes.drop written)

def writeStringToStream (content : Bytes) : FileScript Bool := writeRounds content.length content

def copyFileToStream (source : Source) : FileScript Bool := do
  match ← act (.read source) with
  | none => pure false
  | some bytes => both (writeStringToStream bytes) (act (.stream .closeSource))

def copyPrefix : Option Source → FileScript Bool
  | none => pure true
  | some source => copyFileToStream source

def fillTemporary (source : Option Source) (content : Bytes) : FileScript Bool :=
  both (copyPrefix source) (both (writeStringToStream content) (both (act (.stream .error))
    (both (act (.stream .metadata)) (both (act (.stream .flush)) (act (.stream .sync))))))

inductive ReplaceResult where
  | notCommitted
  | committed
  | committedTemporaryLinkRemaining
  deriving DecidableEq, Repr

def replaceFileAttempts (status : Nat) : Nat → FileScript ReplaceResult
  | 0 => pure .notCommitted
  | attempts + 1 => do
    match ← act .replaceFile with
    | .done => pure .committed
    | .failed => pure .notCommitted
    | .busy => if ← act (.targetUnchanged (some status)) then replaceFileAttempts status attempts else pure .notCommitted

def committedIf (done : Bool) : ReplaceResult := if done then .committed else .notCommitted

def exchange : Platform → Option Nat → FileScript ReplaceResult
  | .windows, some status => replaceFileAttempts status 20
  | .windows, none => do return committedIf (← act .moveFile)
  | .posix, some _ => do return committedIf (← act .rename)
  | .posix, none => do
    if ← act .link then
      if ← act .unlink then pure .committed else pure .committedTemporaryLinkRemaining
    else pure .notCommitted

def replaceTarget (platform : Platform) (state : Option Nat) : FileScript ReplaceResult := do
  if ← act (.targetUnchanged state) then exchange platform state else pure .notCommitted

-- Windows has no directory to sync.
def syncParentDirectory : Platform → FileScript Bool
  | .posix => act .syncDirectory
  | .windows => pure true

def conclude (platform : Platform) (temporaryRemoved : Bool) : FileScript FileCommitResult := do
  if ← syncParentDirectory platform then
    if temporaryRemoved then pure .durable else pure .committedUnsynced
  else pure .committedUnsynced

def atomicWriteLocked (platform : Platform) (source : Option Source) (content : Bytes) : FileScript FileCommitResult := do
  match ← act .inspectTarget with
  | none => pure .failed
  | some state =>
    match ← openUniqueTemporaryFile 128 with
    | .failed => pure .failed
    | .cleanupFailed => pure .failedTemporaryRemaining
    | .opened =>
      let filled ← fillTemporary source content
      let closed ← act (.stream .close)
      if filled && closed then
        match ← replaceTarget platform state with
        | .notCommitted => removeNow
        | .committed => conclude platform true
        | .committedTemporaryLinkRemaining => do
          let removed ← act .removeTemporary
          conclude platform removed
      else removeNow

def writeOver (platform : Platform) (content : Bytes) : FileScript FileCommitResult :=
  atomicWriteLocked platform none content

def appendTo (platform : Platform) (content : Bytes) : FileScript FileCommitResult := do
  match ← act .targetExists with
  | none => pure .failed
  | some present => atomicWriteLocked platform (if present then some .target else none) content

/-- `fileWrite`, with its target resolved and locked. -/
def fileWrite (platform : Platform) (content : Bytes) (overwrite : Bool) : FileScript FileCommitResult :=
  if overwrite then writeOver platform content
  else if content = [] then do
    match ← act .targetStatus with
    | none => pure .failed
    | some false => appendTo platform content
    | some true =>
      if ← act .targetRegular then
        if ← act .targetWritable then pure .durable else pure .failed
      else pure .failed
  else appendTo platform content

/-- `fileCopyDetailed`, from a source that its lock keeps as it is. -/
def fileCopyDetailed (platform : Platform) (source : Bytes) : FileScript FileCommitResult := do
  if ← act .sourceRegular then atomicWriteLocked platform (some (.other source)) [] else pure .failed

inductive Request where
  | write (content : Bytes) (overwrite : Bool)
  | copy (source : Bytes)
  deriving DecidableEq, Repr

def Request.edit : Request → Edit
  | .write content overwrite => if overwrite then .overwrite content else .append content
  | .copy source => .overwrite source

def Request.script (platform : Platform) : Request → FileScript FileCommitResult
  | .write content overwrite => fileWrite platform content overwrite
  | .copy source => fileCopyDetailed platform source

section Stages

variable {start : Option Bytes} {past : List Edit} {edit : Edit} {directory : Directory} {done : Bool} {content rest : Bytes}
  {source : Option Source}

structure State (start : Option Bytes) (past : List Edit) (edit : Edit) (done : Bool) (directory : Directory) : Prop where
  content : directory.content = replay start directory.log
  edits : edits directory.log = past ++ if done then [edit] else []
  edit : directory.edit = edit

def readOf (directory : Directory) : Option Source → Option Bytes
  | none => some []
  | some .target => directory.content
  | some (.other content) => some content

structure Planned (source : Option Source) (content : Bytes) (directory : Directory) : Prop where
  plan : directory.quiet = true → ∀ bytes, readOf directory source = some bytes →
    directory.edit.apply directory.content = bytes ++ content

structure Ready (rest : Bytes) (directory : Directory) : Prop where
  ready : ∃ written, directory.temporary = some written ∧
    (directory.quiet = true → directory.edit.apply directory.content = written ++ rest)

theorem State.disturb (state : State start past edit done directory) (change : Option (Option TargetFile)) :
    State start past edit done (directory.disturb change) := by
  cases change with
  | none => exact state
  | some target =>
    exact ⟨by rw [Directory.disturb, replay_concat]; rfl, by rw [Directory.disturb, edits_foreign, state.edits], state.edit⟩

theorem State.commit (state : State start past edit false directory) (status : Nat)
    (whole : directory.temporary = some (directory.edit.apply directory.content)) :
    State start past edit true (directory.commit status) := by
  have earlier := state.edits
  simp only [Bool.false_eq_true, if_false, List.append_nil] at earlier
  constructor
  · rw [Directory.commit, replay_concat, ← state.content, Change.apply]
    simp [Directory.content, whole]
  · rw [Directory.commit, edits_replaced, earlier, state.edit, if_pos rfl]
  · exact state.edit

theorem State.settled (state : State start past edit done directory) : State start past edit done directory.settled :=
  ⟨state.content, state.edits, state.edit⟩

theorem Planned.disturb (planned : Planned source content directory) (change : Option (Option TargetFile)) :
    Planned source content (directory.disturb change) := by
  cases change with
  | none => exact planned
  | some target => exact ⟨fun quiet => by cases quiet⟩

theorem Ready.disturb (ready : Ready rest directory) (change : Option (Option TargetFile)) :
    Ready rest (directory.disturb change) := by
  cases change with
  | none => exact ready
  | some target =>
    obtain ⟨written, temporary, -⟩ := ready.ready
    exact ⟨written, temporary, fun quiet => by cases quiet⟩

theorem disturb_temporary (directory : Directory) (change : Option (Option TargetFile)) :
    (directory.disturb change).temporary = directory.temporary := by
  cases change <;> rfl

def Holds (start : Option Bytes) (past : List Edit) (edit : Edit) {α : Type} (post : α → Directory → Prop)
    (script : FileScript α) (directory : Directory) : Prop :=
  script.Keeps FileStep.outcome (fun op fate before => op.benign fate before = true)
    (fun before => ∃ done, State start past edit done before) post directory

variable {α γ : Type} {post : α → Directory → Prop}

theorem Holds.mono {weaker : α → Directory → Prop} {script : FileScript α} (holds : Holds start past edit post script directory)
    (implies : ∀ value after, post value after → weaker value after) : Holds start past edit weaker script directory :=
  Script.Keeps.mono holds implies

theorem Holds.bind {script : FileScript γ} {next : γ → FileScript α}
    (holds : Holds start past edit (fun value after => Holds start past edit post (next value) after) script directory) :
    Holds start past edit post (script >>= next) directory :=
  Script.Keeps.bind holds

theorem pure_holds {value : α} (ends : post value directory) : Holds start past edit post (pure value) directory := ends

theorem act_holds {op : FileStep} {post : op.Answer → Directory → Prop} (state : State start past edit done directory)
    (after : ∀ fate, op.benign fate directory = true → post (op.outcome fate directory).1 (op.outcome fate directory).2) :
    Holds start past edit post (act op) directory := ⟨⟨done, state⟩, after⟩

theorem ite_holds {condition : Prop} [Decidable condition] {first second : FileScript α}
    (yes : condition → Holds start past edit post first directory)
    (no : ¬condition → Holds start past edit post second directory) :
    Holds start past edit post (if condition then first else second) directory := by
  by_cases holds : condition
  · rw [if_pos holds]
    exact yes holds
  · rw [if_neg holds]
    exact no holds

theorem both_holds {first second : FileScript Bool} {post : Bool → Directory → Prop}
    (holds : Holds start past edit (fun ok after => if ok then Holds start past edit post second after else post false after)
      first directory) : Holds start past edit post (both first second) directory := by
  refine Holds.bind (holds.mono fun ok after ends => ?_)
  cases ok with
  | true => exact ends
  | false => exact ends

def Stage (start : Option Bytes) (past : List Edit) (edit : Edit) (next : Directory → Prop) (ok : Bool) (after : Directory) : Prop :=
  State start past edit false after ∧ (ok = true → next after)

theorem stream_holds (part : StreamPart) (state : State start past edit false directory) (ready : Ready rest directory) :
    Holds start past edit (Stage start past edit (Ready rest)) (act (.stream part)) directory :=
  act_holds state fun fate _ => ⟨state.disturb fate.change, fun _ => ready.disturb fate.change⟩

theorem stage_holds {first second : FileScript Bool} {middle next : Directory → Prop}
    (holds : Holds start past edit (Stage start past edit middle) first directory)
    (continues : ∀ after, State start past edit false after → middle after →
      Holds start past edit (Stage start past edit next) second after) :
    Holds start past edit (Stage start past edit next) (both first second) directory := by
  refine both_holds (holds.mono fun ok after ends => ?_)
  cases ok with
  | true => exact continues after ends.1 (ends.2 rfl)
  | false => exact ⟨ends.1, fun impossible => by cases impossible⟩

theorem writeRounds_holds (rounds : Nat) (bytes : Bytes) (enough : bytes.length ≤ rounds)
    (state : State start past edit false directory) (ready : Ready (bytes ++ rest) directory) :
    Holds start past edit (Stage start past edit (Ready rest)) (writeRounds rounds bytes) directory := by
  induction rounds generalizing bytes directory with
  | zero =>
    obtain rfl : bytes = [] := List.eq_nil_of_length_eq_zero (by omega)
    exact pure_holds ⟨state, fun _ => ready⟩
  | succ rounds ih =>
    rw [writeRounds]
    split
    · rename_i empty
      rw [empty] at ready
      exact pure_holds ⟨state, fun _ => ready⟩
    · rename_i present
      refine Holds.bind (act_holds state fun fate _ => ?_)
      have kept := state.disturb fate.change
      obtain ⟨written, temporary, whole⟩ := (ready.disturb fate.change).ready
      have goesOn : ∀ count : Nat, Holds start past edit (Stage start past edit (Ready rest))
          (if count = 0 then pure false else writeRounds rounds (bytes.drop count))
          { directory.disturb fate.change with
            temporary := (directory.disturb fate.change).temporary.map (· ++ bytes.take count) } := by
        intro count
        have grown : State start past edit false
            { directory.disturb fate.change with
              temporary := (directory.disturb fate.change).temporary.map (· ++ bytes.take count) } :=
          ⟨kept.content, kept.edits, kept.edit⟩
        split
        · exact pure_holds ⟨grown, fun impossible => by cases impossible⟩
        · have shorter := List.length_pos_iff.mpr present
          refine ih (bytes.drop count) (by rw [List.length_drop]; omega) grown
            ⟨written ++ bytes.take count, by simp [temporary], fun quiet => ?_⟩
          rw [List.append_assoc, ← List.append_assoc (bytes.take count), List.take_append_drop]
          exact whole quiet
      exact goesOn _

theorem writeStringToStream_holds (bytes : Bytes) (state : State start past edit false directory)
    (ready : Ready (bytes ++ rest) directory) :
    Holds start past edit (Stage start past edit (Ready rest)) (writeStringToStream bytes) directory :=
  writeRounds_holds bytes.length bytes le_rfl state ready

theorem copyPrefix_holds (state : State start past edit false directory) (planned : Planned source content directory)
    (empty : directory.temporary = some []) :
    Holds start past edit (Stage start past edit (Ready content)) (copyPrefix source) directory := by
  cases source with
  | none => exact pure_holds ⟨state, fun _ => ⟨[], empty, fun quiet => planned.plan quiet [] rfl⟩⟩
  | some source =>
    refine Holds.bind (act_holds state fun fate _ => ?_)
    have kept := state.disturb fate.change
    have plan := (planned.disturb fate.change).plan
    have blank := (disturb_temporary directory fate.change).trans empty
    simp only [FileStep.outcome]
    split
    · exact pure_holds ⟨kept, fun impossible => by cases impossible⟩
    · rename_i bytes read
      have ready : Ready (bytes ++ content) (directory.disturb fate.change) := by
        refine ⟨[], blank, fun quiet => plan quiet bytes ?_⟩
        cases source with
        | target =>
          by_cases fails : fate.fails = true
          · simp [fails] at read
          · simpa [fails, sourceContent, quiet, readOf] using read
        | other stored =>
          by_cases fails : fate.fails = true
          · simp [fails] at read
          · simpa [fails, sourceContent, readOf] using read
      exact stage_holds (writeStringToStream_holds bytes kept ready) fun after state ready => stream_holds .closeSource state ready

theorem fillTemporary_holds (state : State start past edit false directory) (planned : Planned source content directory)
    (empty : directory.temporary = some []) :
    Holds start past edit (Stage start past edit (Ready [])) (fillTemporary source content) directory := by
  refine stage_holds (copyPrefix_holds state planned empty) fun after state ready => ?_
  have padded : Ready (content ++ []) after := by simpa using ready
  refine stage_holds (writeStringToStream_holds content state padded) fun after state ready => ?_
  refine stage_holds (stream_holds .error state ready) fun after state ready => ?_
  refine stage_holds (stream_holds .metadata state ready) fun after state ready => ?_
  exact stage_holds (stream_holds .flush state ready) fun after state ready => stream_holds .sync state ready

theorem openUniqueTemporaryFile_holds (attempts : Nat) (state : State start past edit false directory)
    (planned : Planned source content directory) (closed : directory.temporary = none) :
    Holds start past edit (fun result after => State start past edit false after ∧
        (result = .opened → Planned source content after ∧ after.temporary = some []) ∧
        (result = .failed → after.temporary = none))
      (openUniqueTemporaryFile attempts) directory := by
  induction attempts generalizing directory with
  | zero => exact pure_holds ⟨state, by simp, fun _ => closed⟩
  | succ attempts ih =>
    refine Holds.bind (act_holds state fun fate _ => ?_)
    have kept := state.disturb fate.change
    have plan := planned.disturb fate.change
    have none := (disturb_temporary directory fate.change).trans closed
    simp only [FileStep.outcome]
    by_cases fails : fate.fails = true
    · simp only [fails, if_true]
      exact pure_holds ⟨kept, by simp, fun _ => none⟩
    · by_cases taken : fate.again = true
      · simp only [fails, taken, if_true, Bool.false_eq_true, if_false]
        exact ih kept plan none
      · simp only [fails, taken, Bool.false_eq_true, if_false]
        have created : State start past edit false { directory.disturb fate.change with temporary := some [] } :=
          ⟨kept.content, kept.edits, kept.edit⟩
        have planned : Planned source content { directory.disturb fate.change with temporary := some [] } := by
          refine ⟨fun quiet bytes read => plan.plan quiet bytes ?_⟩
          cases source with
          | none => exact read
          | some source => cases source <;> exact read
        refine Holds.bind (act_holds created fun next _ => ?_)
        simp only [FileStep.outcome]
        by_cases opens : (!next.fails) = true
        · simp only [opens, if_true]
          exact pure_holds ⟨created.disturb next.change, fun _ => ⟨planned.disturb next.change, disturb_temporary _ _⟩, by simp⟩
        · simp only [opens, Bool.false_eq_true, if_false]
          refine Holds.bind (act_holds (created.disturb next.change) fun last _ => ?_)
          have latest := (created.disturb next.change).disturb last.change
          simp only [FileStep.outcome]
          by_cases stuck : last.fails = true
          · simp only [stuck, if_true, Bool.false_eq_true, if_false]
            exact pure_holds ⟨latest, by simp, by simp⟩
          · simp only [stuck, Bool.false_eq_true, if_false, if_true]
            exact pure_holds ⟨latest.settled, by simp, fun _ => rfl⟩

def Ended (start : Option Bytes) (past : List Edit) (edit : Edit) (result : FileCommitResult) (after : Directory) : Prop :=
  State start past edit (!fileCommitFailed result) after ∧ (result = .failed ∨ result = .durable → after.temporary = none)

theorem removeNow_holds (state : State start past edit false directory) :
    Holds start past edit (Ended start past edit) removeNow directory := by
  refine Holds.bind (act_holds state fun fate _ => ?_)
  have kept := state.disturb fate.change
  simp only [FileStep.outcome]
  by_cases stuck : fate.fails = true
  · simp only [stuck, if_true, Bool.false_eq_true, if_false]
    exact pure_holds ⟨kept, by simp⟩
  · simp only [stuck, Bool.false_eq_true, if_false, if_true]
    exact pure_holds ⟨kept.settled, fun _ => rfl⟩

def Exchanged (start : Option Bytes) (past : List Edit) (edit : Edit) (result : ReplaceResult) (after : Directory) : Prop :=
  match result with
  | .notCommitted => State start past edit false after
  | .committed => State start past edit true after ∧ after.temporary = none
  | .committedTemporaryLinkRemaining => State start past edit true after

theorem disturb_quiet {change : Option (Option TargetFile)} (quiet : (directory.disturb change).quiet = true) :
    directory.disturb change = directory := by
  cases change with
  | none => rfl
  | some target => cases quiet

theorem Ready.whole (ready : Ready [] directory) (quiet : directory.quiet = true) :
    directory.temporary = some (directory.edit.apply directory.content) := by
  obtain ⟨written, temporary, whole⟩ := ready.ready
  rw [whole quiet, List.append_nil, temporary]

theorem replaceFileAttempts_holds (status attempts : Nat) (state : State start past edit false directory)
    (ready : Ready [] directory) :
    Holds start past edit (Exchanged start past edit) (replaceFileAttempts status attempts) directory := by
  induction attempts generalizing directory with
  | zero => exact pure_holds state
  | succ attempts ih =>
    refine Holds.bind (act_holds state fun fate benign => ?_)
    simp only [FileStep.benign, Bool.and_eq_true, Bool.not_eq_true', Bool.and_eq_false_iff] at benign
    obtain ⟨quiet, stays⟩ := benign
    have whole := ready.whole (disturb_quiet quiet ▸ quiet)
    simp only [FileStep.outcome, disturb_quiet quiet]
    by_cases fails : fate.fails = true
    · have kept : fate.gone = false := stays.resolve_left (by simp [fails])
      simp only [fails, kept, if_true, Bool.false_eq_true, if_false]
      exact pure_holds state
    · by_cases busy : fate.again = true
      · simp only [fails, busy, Bool.false_eq_true, if_false, if_true]
        refine Holds.bind (act_holds state fun next _ => ?_)
        exact ite_holds (fun _ => ih (state.disturb next.change) (ready.disturb next.change))
          fun _ => pure_holds (state.disturb next.change)
      · simp only [fails, busy, Bool.false_eq_true, if_false]
        exact pure_holds ⟨(state.commit fate.number whole).settled, rfl⟩

theorem State.create (state : State start past edit false directory) {change : Option (Option TargetFile)} (status : Nat)
    (whole : directory.temporary = some (directory.edit.apply none)) (missing : (directory.disturb change).target.isSome = false) :
    State start past edit true ((directory.disturb change).commit status) := by
  refine (state.disturb change).commit status ?_
  have same : (directory.disturb change).edit = directory.edit := by cases change <;> rfl
  rw [disturb_temporary, whole, same, Directory.content, Option.isSome_eq_false_iff.mp missing |> Option.isNone_iff_eq_none.mp]
  rfl

theorem exchange_holds (platform : Platform) {expected : Option Nat} (state : State start past edit false directory)
    (ready : Ready [] directory) (quiet : directory.quiet = true) (same : directory.status = expected) :
    Holds start past edit (Exchanged start past edit) (exchange platform expected) directory := by
  cases expected with
  | some status =>
    cases platform with
    | windows => exact replaceFileAttempts_holds status 20 state ready
    | posix =>
      refine Holds.bind (act_holds state fun fate benign => ?_)
      simp only [FileStep.benign] at benign
      have whole := ready.whole quiet
      simp only [FileStep.outcome, disturb_quiet benign]
      by_cases fails : fate.fails = true
      · simp only [fails, if_true]
        exact pure_holds state
      · simp only [fails, Bool.false_eq_true, if_false]
        exact pure_holds ⟨(state.commit fate.number whole).settled, rfl⟩
  | none =>
    have missing : directory.content = none := by
      rw [Directory.content, Option.map_eq_none_iff]
      simpa [Directory.status] using same
    have whole := ready.whole quiet
    rw [missing] at whole
    cases platform with
    | windows =>
      refine Holds.bind (act_holds state fun fate _ => ?_)
      simp only [FileStep.outcome]
      split
      · exact pure_holds (state.disturb fate.change)
      · rename_i free
        simp only [not_or, Bool.not_eq_true] at free
        exact pure_holds ⟨(state.create fate.number whole free.2).settled, rfl⟩
    | posix =>
      refine Holds.bind (act_holds state fun fate _ => ?_)
      simp only [FileStep.outcome]
      split
      · exact pure_holds (state.disturb fate.change)
      · rename_i free
        simp only [not_or, Bool.not_eq_true] at free
        have created := state.create fate.number whole free.2
        simp only [if_true]
        refine Holds.bind (act_holds created fun next _ => ?_)
        simp only [FileStep.outcome]
        by_cases stuck : next.fails = true
        · simp only [stuck, if_true, Bool.false_eq_true, if_false]
          exact pure_holds (created.disturb next.change)
        · simp only [stuck, Bool.false_eq_true, if_false, if_true]
          exact pure_holds ⟨(created.disturb next.change).settled, rfl⟩

theorem replaceTarget_holds (platform : Platform) (expected : Option Nat) (state : State start past edit false directory)
    (ready : Ready [] directory) :
    Holds start past edit (Exchanged start past edit) (replaceTarget platform expected) directory := by
  refine Holds.bind (act_holds state fun fate benign => ?_)
  have kept := state.disturb fate.change
  simp only [FileStep.benign, Bool.or_eq_true, decide_eq_true_eq] at benign
  simp only [FileStep.outcome]
  by_cases passed : (!fate.fails && (directory.disturb fate.change).status == expected) = true
  · simp only [passed, if_true]
    simp only [Bool.and_eq_true, beq_iff_eq] at passed
    exact exchange_holds platform kept (ready.disturb fate.change) (benign.resolve_left (by simp [passed.2])) passed.2
  · simp only [passed, Bool.false_eq_true, if_false]
    exact pure_holds kept

theorem conclude_holds (platform : Platform) {removed : Bool} (state : State start past edit true directory)
    (clean : removed = true → directory.temporary = none) :
    Holds start past edit (Ended start past edit) (conclude platform removed) directory := by
  have ends : ∀ {after : Directory}, State start past edit true after → (removed = true → after.temporary = none) →
      Holds start past edit (Ended start past edit)
        (if removed = true then pure .durable else pure .committedUnsynced) after := by
    intro after state clean
    exact ite_holds (fun yes => pure_holds ⟨state, fun _ => clean yes⟩) fun _ => pure_holds ⟨state, by simp⟩
  cases platform with
  | windows => exact ends state clean
  | posix =>
    refine Holds.bind (act_holds state fun fate _ => ?_)
    have kept := state.disturb fate.change
    exact ite_holds (fun _ => ends kept fun yes => (disturb_temporary _ _).trans (clean yes)) fun _ => pure_holds ⟨kept, by simp⟩

inductive Suited : Option Source → Bytes → Directory → Prop where
  | overwrite {content : Bytes} {directory : Directory} (edit : directory.edit = .overwrite content) : Suited none content directory
  | copy {stored : Bytes} {directory : Directory} (edit : directory.edit = .overwrite stored) :
      Suited (some (.other stored)) [] directory
  | extend {content : Bytes} {directory : Directory} (edit : directory.edit = .append content) :
      Suited (some .target) content directory
  | create {content : Bytes} {directory : Directory} (edit : directory.edit = .append content)
      (looked : directory.looked = some false) : Suited none content directory

theorem Suited.planned {after : Directory} (suited : Suited source content directory) (same : after.edit = directory.edit)
    (missing : directory.looked = some false → after.content = none) : Planned source content after := by
  constructor
  intro _ bytes read
  rw [same]
  cases suited with
  | overwrite edit =>
    obtain rfl := Option.some.inj read
    rw [edit]
    rfl
  | copy edit =>
    obtain rfl := Option.some.inj read
    rw [edit]
    exact (List.append_nil _).symm
  | extend edit =>
    have found : after.content = some bytes := read
    rw [found, edit]
    rfl
  | create edit looked =>
    obtain rfl := Option.some.inj read
    rw [missing looked, edit]
    rfl

theorem atomicWriteLocked_holds (platform : Platform) (state : State start past edit false directory)
    (suited : Suited source content directory) (closed : directory.temporary = none) :
    Holds start past edit (Ended start past edit) (atomicWriteLocked platform source content) directory := by
  refine Holds.bind (act_holds state fun fate benign => ?_)
  have kept := state.disturb fate.change
  have none := (disturb_temporary directory fate.change).trans closed
  simp only [FileStep.benign, Bool.or_eq_true, decide_eq_true_eq] at benign
  simp only [FileStep.outcome]
  by_cases fails : fate.fails = true
  · simp only [fails, if_true]
    exact pure_holds ⟨kept, fun _ => none⟩
  simp only [fails, Bool.false_eq_true, if_false]
  have looked : directory.looked = some false → (directory.disturb fate.change).content = Option.none := by
    intro seen
    have same : (directory.disturb fate.change).looked = directory.looked := by cases fate.change <;> rfl
    rw [same] at benign
    rw [Directory.content, benign.resolve_left (fun other => other seen)]
    rfl
  have same : (directory.disturb fate.change).edit = directory.edit := by cases fate.change <;> rfl
  have inspected : State start past edit false { directory.disturb fate.change with quiet := true } :=
    ⟨kept.content, kept.edits, kept.edit⟩
  refine Holds.bind ((openUniqueTemporaryFile_holds 128 inspected (suited.planned same looked) none).mono fun result after ends => ?_)
  obtain ⟨state, opens, leaves⟩ := ends
  cases result with
  | failed => exact pure_holds ⟨state, fun _ => leaves rfl⟩
  | cleanupFailed => exact pure_holds ⟨state, by simp⟩
  | opened =>
    obtain ⟨planned, empty⟩ := opens rfl
    refine Holds.bind ((fillTemporary_holds state planned empty).mono fun filled after ends => ?_)
    refine Holds.bind (act_holds ends.1 fun close _ => ?_)
    have state := ends.1.disturb close.change
    refine ite_holds (fun success => ?_) fun _ => removeNow_holds state
    simp only [Bool.and_eq_true] at success
    have ready := (ends.2 success.1).disturb close.change
    refine Holds.bind ((replaceTarget_holds platform _ state ready).mono fun result after exchanged => ?_)
    cases result with
    | notCommitted => exact removeNow_holds exchanged
    | committed => exact conclude_holds platform exchanged.1 fun _ => exchanged.2
    | committedTemporaryLinkRemaining =>
      have replaced : State start past edit true after := exchanged
      refine Holds.bind (act_holds replaced fun remove _ => ?_)
      have kept := replaced.disturb remove.change
      simp only [FileStep.outcome]
      by_cases stuck : remove.fails = true
      · simp only [stuck, if_true]
        exact conclude_holds platform kept fun impossible => by cases impossible
      · simp only [stuck, Bool.false_eq_true, if_false]
        exact conclude_holds platform kept.settled fun _ => rfl

theorem appendTo_holds (platform : Platform) (content : Bytes) (state : State start past (.append content) false directory)
    (closed : directory.temporary = none) :
    Holds start past (.append content) (Ended start past (.append content)) (appendTo platform content) directory := by
  refine Holds.bind (act_holds state fun fate _ => ?_)
  have kept := state.disturb fate.change
  have none := (disturb_temporary directory fate.change).trans closed
  simp only [FileStep.outcome]
  by_cases fails : fate.fails = true
  · simp only [fails, if_true]
    exact pure_holds ⟨kept, fun _ => none⟩
  · simp only [fails, Bool.false_eq_true, if_false]
    have seen : State start past (.append content) false
        { directory.disturb fate.change with looked := some (directory.disturb fate.change).target.isSome } :=
      ⟨kept.content, kept.edits, kept.edit⟩
    refine atomicWriteLocked_holds platform seen ?_ none
    cases present : (directory.disturb fate.change).target.isSome with
    | true => exact .extend kept.edit
    | false => exact .create kept.edit rfl

theorem touch_holds (state : State start past (.append []) false directory) (closed : directory.temporary = none) :
    Holds start past (.append []) (Ended start past (.append []))
      (do if ← act .targetWritable then pure .durable else pure .failed) directory := by
  refine Holds.bind (act_holds state fun fate _ => ?_)
  have kept := state.disturb fate.change
  have none := (disturb_temporary directory fate.change).trans closed
  simp only [FileStep.outcome]
  by_cases refused : fate.fails = true ∨ (directory.disturb fate.change).target = Option.none
  · simp only [refused, if_true, Bool.false_eq_true, if_false]
    exact pure_holds ⟨kept, fun _ => none⟩
  · simp only [refused, if_true, if_false]
    simp only [not_or] at refused
    obtain ⟨file, there⟩ := Option.ne_none_iff_exists'.mp refused.2
    have earlier := kept.edits
    simp only [Bool.false_eq_true, if_false, List.append_nil] at earlier
    refine pure_holds ⟨⟨?_, ?_, kept.edit⟩, fun _ => none⟩
    · rw [replay_concat, ← kept.content, Change.apply]
      simp [Directory.content, there, Edit.apply]
    · rw [edits_replaced, earlier]
      rfl

theorem fileWrite_holds (platform : Platform) (content : Bytes) (overwrite : Bool)
    (state : State start past (Request.write content overwrite).edit false directory) (closed : directory.temporary = none) :
    Holds start past (Request.write content overwrite).edit (Ended start past (Request.write content overwrite).edit)
      (fileWrite platform content overwrite) directory := by
  cases overwrite with
  | true => exact atomicWriteLocked_holds platform state (.overwrite state.edit) closed
  | false =>
    have edit : (Request.write content false).edit = .append content := rfl
    rw [edit] at state ⊢
    refine ite_holds (fun impossible => by cases impossible) fun _ => ite_holds (fun empty => ?_) fun _ =>
      appendTo_holds platform content state closed
    refine Holds.bind (act_holds state fun fate _ => ?_)
    have kept := state.disturb fate.change
    have none := (disturb_temporary directory fate.change).trans closed
    simp only [FileStep.outcome]
    by_cases fails : fate.fails = true
    · simp only [fails, if_true]
      exact pure_holds ⟨kept, fun _ => none⟩
    simp only [fails, Bool.false_eq_true, if_false]
    cases present : (directory.disturb fate.change).target.isSome with
    | false => exact appendTo_holds platform content kept none
    | true =>
      refine Holds.bind (act_holds kept fun regular _ => ?_)
      have kept := kept.disturb regular.change
      have none := (disturb_temporary _ regular.change).trans none
      exact ite_holds (fun _ => empty ▸ touch_holds (empty ▸ kept) none) fun _ => pure_holds ⟨kept, fun _ => none⟩

theorem fileCopyDetailed_holds (platform : Platform) (stored : Bytes) (state : State start past (.overwrite stored) false directory)
    (closed : directory.temporary = none) :
    Holds start past (.overwrite stored) (Ended start past (.overwrite stored)) (fileCopyDetailed platform stored) directory := by
  refine Holds.bind (act_holds state fun fate _ => ?_)
  have kept := state.disturb fate.change
  have none := (disturb_temporary directory fate.change).trans closed
  exact ite_holds (fun _ => atomicWriteLocked_holds platform kept (.copy kept.edit) none) fun _ => pure_holds ⟨kept, fun _ => none⟩

theorem request_holds (platform : Platform) (request : Request) (state : State start past request.edit false directory)
    (closed : directory.temporary = none) :
    Holds start past request.edit (Ended start past request.edit) (request.script platform) directory := by
  cases request with
  | write content overwrite => exact fileWrite_holds platform content overwrite state closed
  | copy stored => exact fileCopyDetailed_holds platform stored state closed

end Stages

end SubConverter.Utils
