import SubConverter.Lib.Script

set_option autoImplicit false

namespace SubConverter.Updater

inductive Platform where
  | linux
  | windows
  deriving DecidableEq, Repr

def Platform.canUpdateWhileRunning : Platform → Bool
  | .linux => true
  | .windows => false

@[ext]
structure Version where
  major : Nat
  minor : Nat
  patch : Nat
  deriving DecidableEq, Repr

def compareVersions (left right : Version) : Ordering :=
  (compare left.major right.major).then
    ((compare left.minor right.minor).then (compare left.patch right.patch))

structure BuildInfo where
  buildDate : String
  revision : String
  version : Version
  deriving DecidableEq, Repr

inductive Counterpart where
  | candidate
  | rollback
  deriving DecidableEq, Repr

inductive Place where
  | root
  | counterpart (name : Counterpart)
  | exchangeOld (name : Counterpart)
  deriving DecidableEq, Repr

inductive Phase where
  | prepared
  | exchanged
  | rollbackPrepared
  | rollbackExchanged
  deriving DecidableEq, Repr

-- The phase in which a transaction is first written down.
def Phase.isPrepared : Phase → Bool
  | .prepared | .rollbackPrepared => true
  | .exchanged | .rollbackExchanged => false

def Phase.isRollback : Phase → Bool
  | .prepared | .exchanged => false
  | .rollbackPrepared | .rollbackExchanged => true

structure PendingTransaction where
  phase : Phase
  candidateRoot : Counterpart
  old : BuildInfo
  new : BuildInfo
  deriving DecidableEq, Repr

-- Which of the exchanges of `apply`, `rollback` and `recover` a step belongs to.
inductive Site where
  | install
  | undo
  | revert
  | rollback
  | restore
  | resume
  | retreat
  | repair
  | finalize
  | extract
  | cleanUp
  deriving DecidableEq, Repr

-- A step that succeeds or fails.
inductive Op where
  | applicationRunning
  | downloadRelease
  | removeStaging (site : Site)
  | extractPortableArchive
  | preserveMutableFiles (target : Place)
  | validateRuntime (place : Place)
  | writePending (pending : PendingTransaction)
  | syncState
  | stat (place : Place) (site : Site)
  | executable (site : Site)
  | absent (place : Place) (site : Site)
  | exchange (name : Counterpart) (site : Site)
  | syncParent (place : Place) (site : Site)
  | rename (source target : Place) (site : Site)
  | removePending
  | makeRollbackParent
  | removeRollback
  | syncRollbackParent
  | emitState
  deriving DecidableEq, Repr

inductive Step where
  | op (op : Op)
  | statPending
  | readPending
  | resolveRelease
  | currentBuildInfo (place : Place)
  deriving DecidableEq, Repr

/-- Every directory has a number. The last three fields are there to state results only: the root and its
counterpart when the pending transaction was written down, the directory that this call has validated as the
root, and the steps it has taken, the latest first. -/
structure Layout where
  directories : Place → Option Nat
  pending : Option PendingTransaction := none
  made : Nat
  parties : Option Nat × Option Nat := (none, none)
  passed : Option Nat := none
  log : List (Step × Bool) := []

namespace Layout

def put (layout : Layout) (place : Place) (directory : Option Nat) : Layout :=
  { layout with directories := Function.update layout.directories place directory }

def holds (layout : Layout) (place : Place) : Bool := (layout.directories place).isSome

end Layout

/-- What becomes of a step. `good` is false when it fails for a reason of its own; for `applicationRunning`
it is the answer. -/
def Op.effect (good : Bool) (layout : Layout) : Op → Bool × Layout
  | .removeStaging _ =>
    (good, if good then (layout.put (.counterpart .candidate) none).put (.exchangeOld .candidate) none else layout)
  | .extractPortableArchive =>
    (good, if good then { layout.put (.counterpart .candidate) (some layout.made) with made := layout.made + 1 }
      else layout)
  | .validateRuntime place =>
    if good ∧ layout.holds place then
      (true, if place = .root then { layout with passed := layout.directories .root } else layout)
    else (false, layout)
  | .writePending pending =>
    (good, if good then
        { layout with
          pending := some pending
          parties := if pending.phase.isPrepared then
              (layout.directories .root, layout.directories (.counterpart pending.candidateRoot))
            else layout.parties }
      else layout)
  | .stat place _ => (good && layout.holds place, layout)
  | .absent place _ => (good && !layout.holds place, layout)
  | .exchange name _ =>
    if good ∧ layout.holds .root ∧ layout.holds (.counterpart name) then
      (true, (layout.put .root (layout.directories (.counterpart name))).put (.counterpart name)
        (layout.directories .root))
    else (false, layout)
  | .rename source target _ =>
    if good ∧ layout.holds source ∧ ¬layout.holds target then
      (true, (layout.put target (layout.directories source)).put source none)
    else (false, layout)
  | .removePending => (good, if good then { layout with pending := none } else layout)
  | .removeRollback => (good, if good then layout.put (.counterpart .rollback) none else layout)
  | .applicationRunning | .downloadRelease | .preserveMutableFiles _ | .syncState | .executable _ | .syncParent _ _
  | .makeRollbackParent | .syncRollbackParent | .emitState => (good, layout)

def Step.Answer : Step → Type
  | .op _ => Bool
  | .statPending => Option Bool
  | .readPending => Option (Option PendingTransaction)
  | .resolveRelease | .currentBuildInfo _ => Option BuildInfo

def Layout.record (layout : Layout) (step : Step) (good : Bool) : Layout :=
  { layout with log := (step, good) :: layout.log }

def Step.outcome (info : Nat → BuildInfo) (release : BuildInfo) :
    (step : Step) → Bool → Layout → step.Answer × Layout
  | .op action, good, layout =>
    ((action.effect good layout).1, (action.effect good layout).2.record (.op action) (action.effect good layout).1)
  | .statPending, good, layout =>
    (if good then some layout.pending.isSome else none, layout.record .statPending good)
  | .readPending, good, layout => (if good then some layout.pending else none, layout.record .readPending good)
  | .resolveRelease, good, layout => (if good then some release else none, layout.record .resolveRelease good)
  | .currentBuildInfo place, good, layout =>
    (if good then (layout.directories place).map info else none, layout.record (.currentBuildInfo place) good)

abbrev UpdaterScript := Script Step Step.Answer

def perform (op : Op) : UpdaterScript Bool := .act (.op op) .done

def statPending : UpdaterScript (Option Bool) := .act .statPending .done

def readPending : UpdaterScript (Option (Option PendingTransaction)) := .act .readPending .done

def resolveRelease : UpdaterScript (Option BuildInfo) := .act .resolveRelease .done

def currentBuildInfo (place : Place) : UpdaterScript (Option BuildInfo) := .act (.currentBuildInfo place) .done

-- The steps are taken in order up to the first one that fails.
def allOf : List Op → UpdaterScript Bool
  | [] => pure true
  | op :: rest => do if ← perform op then allOf rest else pure false

inductive Exit where
  | unchanged
  | changed
  | failed
  deriving DecidableEq, Repr

def writeJSONAtomic (pending : PendingTransaction) : UpdaterScript Bool := allOf [.writePending pending, .syncState]

def atomicSwapDirectories (platform : Platform) (right : Counterpart) (site : Site) : UpdaterScript Bool :=
  match platform with
  | .linux =>
    allOf [.stat .root site, .stat (.counterpart right) site, .exchange right site, .syncParent .root site,
      .syncParent (.counterpart right) site]
  | .windows => do
    let ready ← allOf [.stat .root site, .stat (.counterpart right) site, .executable site,
      .absent (.exchangeOld right) site, .rename .root (.exchangeOld right) site]
    if ready then
      if ← perform (.rename (.counterpart right) .root site) then
        perform (.rename (.exchangeOld right) (.counterpart right) site)
      else
        let _ ← perform (.rename (.exchangeOld right) .root site)
        pure false
    else pure false

-- A path whose inspection fails does not count as existing.
def repairInterruptedSwap (platform : Platform) (right : Counterpart) : UpdaterScript Bool :=
  match platform with
  | .linux => pure true
  | .windows => do
    let rootExists ← perform (.stat .root .repair)
    let candidateExists ← perform (.stat (.counterpart right) .repair)
    let oldExists ← perform (.stat (.exchangeOld right) .repair)
    if !oldExists then pure true
    else if !rootExists && candidateExists then
      allOf [.rename (.counterpart right) .root .repair,
        .rename (.exchangeOld right) (.counterpart right) .repair]
    else if rootExists && !candidateExists then
      perform (.rename (.exchangeOld right) (.counterpart right) .repair)
    else pure false

def finalizeAppliedRoot (oldRoot : Counterpart) : UpdaterScript Bool :=
  allOf [.makeRollbackParent, .removeRollback, .rename (.counterpart oldRoot) (.counterpart .rollback) .finalize,
    .syncRollbackParent]

def recover (platform : Platform) : UpdaterScript Exit := do
  match ← readPending with
  | none => pure .failed
  | some none => pure .unchanged
  | some (some pending) =>
    if ← repairInterruptedSwap platform pending.candidateRoot then
      let rootInfo ← currentBuildInfo .root
      let candidateInfo ← currentBuildInfo (.counterpart pending.candidateRoot)
      let rootIsNew := rootInfo.any fun info => info.revision = pending.new.revision
      let rootIsOld := rootInfo.any fun info => info.revision = pending.old.revision
      let candidateIsNew := candidateInfo.any fun info => info.revision = pending.new.revision
      let candidateIsOld := candidateInfo.any fun info => info.revision = pending.old.revision
      if rootIsOld && candidateIsNew then
        if ← perform (.validateRuntime (.counterpart pending.candidateRoot)) then
          if ← atomicSwapDirectories platform pending.candidateRoot .resume then conclude pending
          else pure .failed
        else pure .failed
      else if rootIsNew && candidateIsOld then conclude pending
      else pure .failed
    else pure .failed
where
  -- From here on the root is the new installation and the other directory the old one.
  conclude (pending : PendingTransaction) : UpdaterScript Exit := do
    if ← perform (.validateRuntime .root) then
      if pending.phase.isRollback then finish
      else if ← finalizeAppliedRoot pending.candidateRoot then finish
      else pure .failed
    else
      if ← atomicSwapDirectories platform pending.candidateRoot .retreat then
        let _ ← perform .removePending
        pure .failed
      else pure .failed
  finish : UpdaterScript Exit := do
    let _ ← perform .removePending
    if ← perform .emitState then pure .changed else pure .failed

/-- The part of `apply` that follows the extraction of the candidate, without the deferred clean-up. -/
def install (platform : Platform) (release current : BuildInfo) : UpdaterScript Exit := do
  match ← currentBuildInfo (.counterpart .candidate) with
  | none => pure .failed
  | some candidate =>
    if candidate ≠ release then pure .failed
    else if ← allOf [.preserveMutableFiles (.counterpart .candidate), .validateRuntime (.counterpart .candidate)] then
      let pending : PendingTransaction := ⟨.prepared, .candidate, current, candidate⟩
      if ← writeJSONAtomic pending then
        if ← atomicSwapDirectories platform .candidate .install then
          if ← writeJSONAtomic { pending with phase := .exchanged } then
            if ← perform (.validateRuntime .root) then
              if ← finalizeAppliedRoot .candidate then
                let _ ← perform .removePending
                let _ ← perform .syncState
                if ← perform .emitState then pure .changed else pure .failed
              else pure .failed
            else
              let _ ← atomicSwapDirectories platform .candidate .revert
              let _ ← perform .removePending
              let _ ← perform .emitState
              pure .failed
          else
            let _ ← atomicSwapDirectories platform .candidate .undo
            pure .failed
        else
          let _ ← perform .removePending
          pure .failed
      else pure .failed
    else pure .failed

-- Without a pending file the staging directory is no longer needed.
def cleanUp (exit : Exit) : UpdaterScript Exit := do
  if (← statPending) = some false then
    let _ ← perform (.removeStaging .cleanUp)
    pure exit
  else pure exit

def apply (platform : Platform) : UpdaterScript Exit := do
  match ← statPending with
  | none => pure .failed
  | some true => recover platform
  | some false =>
    if (← perform .applicationRunning) && !platform.canUpdateWhileRunning then pure .failed
    else
      match ← resolveRelease with
      | none => pure .failed
      | some release =>
        match ← currentBuildInfo .root with
        | none => pure .failed
        | some installed =>
          if compareVersions installed.version release.version ≠ .lt then
            if ← perform .emitState then pure .unchanged else pure .failed
          else
            match ← currentBuildInfo .root with
            | none => pure .failed
            | some current =>
              if ← allOf [.downloadRelease, .removeStaging .extract, .extractPortableArchive] then
                let exit ← install platform release current
                cleanUp exit
              else pure .failed

def rollback (platform : Platform) : UpdaterScript Exit := do
  match ← statPending with
  | none => pure .failed
  | some true => recover platform
  | some false =>
    if (← perform .applicationRunning) && !platform.canUpdateWhileRunning then pure .failed
    else
      match ← currentBuildInfo .root with
      | none => pure .failed
      | some current =>
        match ← currentBuildInfo (.counterpart .rollback) with
        | none => pure .failed
        | some rollbackInfo =>
          if ← allOf [.preserveMutableFiles (.counterpart .rollback), .validateRuntime (.counterpart .rollback)] then
            let pending : PendingTransaction := ⟨.rollbackPrepared, .rollback, current, rollbackInfo⟩
            if ← writeJSONAtomic pending then
              if ← atomicSwapDirectories platform .rollback .rollback then
                let _ ← writeJSONAtomic { pending with phase := .rollbackExchanged }
                if ← perform (.validateRuntime .root) then
                  let _ ← perform .removePending
                  if ← perform .emitState then pure .changed else pure .failed
                else
                  let _ ← atomicSwapDirectories platform .rollback .restore
                  let _ ← perform .removePending
                  pure .failed
              else
                let _ ← perform .removePending
                pure .failed
            else pure .failed
          else pure .failed

end SubConverter.Updater
