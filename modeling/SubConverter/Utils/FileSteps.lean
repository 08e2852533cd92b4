import SubConverter.Lib.Wire
import SubConverter.Handler.CacheStorage

set_option autoImplicit false

namespace SubConverter.Utils

open Wire (Bytes)
open Handler (FileCommitResult fileCommitFailed)

inductive Platform where
  | posix
  | windows
  deriving DecidableEq, Repr

structure TargetFile where
  content : Bytes
  status : Nat
  deriving DecidableEq, Repr

inductive Edit where
  | append (content : Bytes)
  | overwrite (content : Bytes)
  deriving DecidableEq, Repr

def Edit.apply : Edit → Option Bytes → Bytes
  | .append content, old => old.getD [] ++ content
  | .overwrite content, _ => content

inductive Change where
  | foreign (content : Option Bytes)
  | replaced (edit : Edit)
  deriving DecidableEq, Repr

def Change.apply (old : Option Bytes) : Change → Option Bytes
  | .foreign content => content
  | .replaced edit => some (edit.apply old)

def replay (start : Option Bytes) (log : List Change) : Option Bytes := log.foldl Change.apply start

def Change.edit : Change → Option Edit
  | .foreign _ => none
  | .replaced edit => some edit

def edits (log : List Change) : List Edit := log.filterMap Change.edit

@[simp] theorem replay_concat (start : Option Bytes) (log : List Change) (change : Change) :
    replay start (log ++ [change]) = change.apply (replay start log) := by
  simp [replay]

@[simp] theorem edits_foreign (log : List Change) (content : Option Bytes) : edits (log ++ [.foreign content]) = edits log := by
  simp [edits, Change.edit]

@[simp] theorem edits_replaced (log : List Change) (edit : Edit) : edits (log ++ [.replaced edit]) = edits log ++ [edit] := by
  simp [edits, Change.edit]

/-- The target, the temporary file of the call that holds the lock, and for stating results: the edit of that call,
what it saw of the target's existence, whether nobody else has changed the target since its inspection, and
every change so far. -/
structure Directory where
  target : Option TargetFile
  temporary : Option Bytes := none
  edit : Edit := .append []
  looked : Option Bool := none
  quiet : Bool := false
  log : List Change := []
  deriving DecidableEq, Repr

def Directory.content (directory : Directory) : Option Bytes := directory.target.map TargetFile.content

def Directory.status (directory : Directory) : Option Nat := directory.target.map TargetFile.status

inductive Source where
  | target
  | other (content : Bytes)
  deriving DecidableEq, Repr

inductive StreamPart where
  | closeSource
  | error
  | metadata
  | flush
  | sync
  | close
  deriving DecidableEq, Repr

inductive FileStep where
  | targetStatus
  | targetRegular
  | targetWritable
  | sourceRegular
  | targetExists
  | inspectTarget
  | create
  | fdopen
  | read (source : Source)
  | write (bytes : Bytes)
  | stream (part : StreamPart)
  | targetUnchanged (expected : Option Nat)
  | link
  | unlink
  | rename
  | replaceFile
  | moveFile
  | removeTemporary
  | syncDirectory
  deriving DecidableEq, Repr

inductive Created where
  | created
  | taken
  | failed
  deriving DecidableEq, Repr

inductive Replaced where
  | done
  | busy
  | failed
  deriving DecidableEq, Repr

/-- Nothing stands for an error where the answer is optional. -/
@[reducible] def FileStep.Answer : FileStep → Type
  | .targetStatus | .targetExists => Option Bool
  | .inspectTarget => Option (Option Nat)
  | .create => Created
  | .read _ => Option Bytes
  | .write _ => Nat
  | .replaceFile => Replaced
  | _ => Bool

/-- How a step goes. Someone else may change the target just before it. -/
structure Fate where
  change : Option (Option TargetFile) := none
  fails : Bool := false
  -- The name is taken, the file is in use.
  again : Bool := false
  -- The bytes that a failing write still writes, and the status of a new file.
  number : Nat := 0
  -- What is read of a file that changes meanwhile.
  torn : Bytes := []
  -- `ReplaceFileW` fails when the old file has been removed already.
  gone : Bool := false
  deriving DecidableEq, Repr

def Directory.disturb (directory : Directory) : Option (Option TargetFile) → Directory
  | none => directory
  | some target =>
    { directory with
      target := target, quiet := false, log := directory.log ++ [.foreign (target.map TargetFile.content)] }

def Directory.commit (directory : Directory) (status : Nat) : Directory :=
  { directory with
    target := some ⟨directory.temporary.getD [], status⟩, log := directory.log ++ [.replaced directory.edit] }

def Directory.settled (directory : Directory) : Directory := { directory with temporary := none }

def sourceContent (directory : Directory) (torn : Bytes) : Source → Option Bytes
  | .target => if directory.quiet then directory.content else some torn
  | .other content => some content

def FileStep.outcome (op : FileStep) (fate : Fate) (before : Directory) : op.Answer × Directory :=
  let directory := before.disturb fate.change
  match op with
  | .targetStatus => (if fate.fails then none else some directory.target.isSome, directory)
  | .targetRegular | .sourceRegular | .fdopen | .stream _ | .syncDirectory => (!fate.fails, directory)
  | .targetWritable =>
    if fate.fails ∨ directory.target = none then (false, directory)
    -- An empty append is done when the file could be written.
    else (true, { directory with log := directory.log ++ [.replaced (.append [])] })
  | .targetExists =>
    if fate.fails then (none, directory)
    else (some directory.target.isSome, { directory with looked := some directory.target.isSome })
  | .inspectTarget => if fate.fails then (none, directory) else (some directory.status, { directory with quiet := true })
  | .create =>
    if fate.fails then (.failed, directory)
    else if fate.again then (.taken, directory)
    else (.created, { directory with temporary := some [] })
  | .read source => (if fate.fails then none else sourceContent directory fate.torn source, directory)
  | .write bytes =>
    let written := if fate.fails then min fate.number bytes.length else bytes.length
    (written, { directory with temporary := directory.temporary.map (· ++ bytes.take written) })
  | .targetUnchanged expected => (!fate.fails && directory.status == expected, directory)
  | .link => if fate.fails ∨ directory.target.isSome then (false, directory) else (true, directory.commit fate.number)
  | .unlink | .removeTemporary => if fate.fails then (false, directory) else (true, directory.settled)
  | .rename => if fate.fails then (false, directory) else (true, (directory.commit fate.number).settled)
  | .replaceFile =>
    if fate.fails then (.failed, if fate.gone then { directory with target := none } else directory)
    else if fate.again then (.busy, directory)
    else (.done, (directory.commit fate.number).settled)
  | .moveFile =>
    if fate.fails ∨ directory.target.isSome then (false, directory) else (true, (directory.commit fate.number).settled)

def FileStep.benign (op : FileStep) (fate : Fate) (before : Directory) : Bool :=
  let directory := before.disturb fate.change
  match op with
  | .inspectTarget => directory.looked ≠ some false || directory.target = none
  | .targetUnchanged expected => directory.status ≠ expected || directory.quiet
  | .rename => directory.quiet
  | .replaceFile => directory.quiet && !(fate.fails && fate.gone)
  | _ => true

abbrev FileScript := Script FileStep FileStep.Answer

end SubConverter.Utils
