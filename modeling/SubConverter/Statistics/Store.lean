import SubConverter.Lib.Fs
import SubConverter.Statistics.Wal

set_option autoImplicit false

namespace SubConverter.Statistics

open Wire (Bytes)
open Fs (Prog)

inductive StoreFile where
  | checkpointA
  | checkpointB
  | temporaryA
  | temporaryB
  | wal
deriving DecidableEq, Repr

-- The name with ".tmp" added.
def StoreFile.temporary : StoreFile → StoreFile
  | .checkpointA => .temporaryA
  | .checkpointB => .temporaryB
  | other => other

-- Files, locks and clocks are not fields here: `ready` is true between `open` and `close`.
structure Store where
  ready : Bool := false
  generation : UInt64 := 0
  sequence : UInt64 := 0
  walBytes : Nat := 0
  walRecords : Nat := 0
deriving DecidableEq, Repr

abbrev StoreProg := Prog StoreFile

def readFile (name : StoreFile) (maxBytes : Nat) : StoreProg (Option Bytes) := do
  let bytes ← Prog.content name
  pure (bytes.filter fun bytes => bytes.length ≤ maxBytes)

def inspectCheckpoint (name : StoreFile) : StoreProg (Option Checkpoint) := do
  let bytes ← readFile name (kMaxCheckpointPayloadBytes + kCheckpointEnvelopeBytes)
  pure (bytes.bind decodeCheckpoint)

/-- The checkpoint `load` starts from: the one of the higher generation, then of the higher sequence,
then the first. -/
def newest : Option Checkpoint → Option Checkpoint → Option Checkpoint
  | none, second => second
  | some first, none => some first
  | some first, some second =>
    if first.generation > second.generation ∨
        (first.generation = second.generation ∧ first.sequence ≥ second.sequence) then some first
    else some second

def oversizedCheckpoint (bytes : Option Bytes) : Bool :=
  bytes.any fun bytes => bytes.length > kMaxCheckpointPayloadBytes + kCheckpointEnvelopeBytes

namespace Store

-- `open` with the directory and the lock available.
def opened (store : Store) : Store := { store with ready := true }

def close (store : Store) : Store := { store with ready := false }

def truncateWalTo (store : Store) (size records : Nat) : StoreProg (Bool × Store) := do
  if ← Prog.both (Prog.perform (.openAppend .wal)) (Prog.both (Prog.perform (.resize .wal size))
      (Prog.both (Prog.perform (.sync .wal)) (Prog.perform .syncDirectory))) then
    pure (true, { store with walBytes := size, walRecords := records })
  else pure (false, store)

def truncateWal (store : Store) : StoreProg (Bool × Store) := store.truncateWalTo 0 0

-- The part of `load` that replays the log on the checkpoint that was found.
def loadWal (store : Store) (best : Option Checkpoint) (wal : Bytes) : StoreProg (Option Checkpoint × Store) :=
  if wal.length > kMaxWalFileBytes then pure (best, store.close)
  else
    let store := { store with walBytes := wal.length }
    match best with
    -- Without a checkpoint the loop only looks at the records.
    | none => pure (none, store)
    | some checkpoint => do
      let result := checkpoint.replay wal
      let store := { store with sequence := result.state.sequence, walRecords := result.records }
      if result.tail = [] then pure (some result.state, store)
      else
        let (truncated, store) ← store.truncateWalTo (wal.length - result.tail.length) result.records
        pure (some result.state, if truncated then store else store.close)

def load (store : Store) : StoreProg (Option Checkpoint × Store) :=
  if store.ready = false then pure (none, store)
  else do
    let first ← inspectCheckpoint .checkpointA
    let second ← inspectCheckpoint .checkpointB
    let best := newest first second
    let bytesA ← Prog.content .checkpointA
    let bytesB ← Prog.content .checkpointB
    if best.isNone && (oversizedCheckpoint bytesA || oversizedCheckpoint bytesB) then pure (best, store.close)
    else
      let store := { store with
        generation := best.elim 0 Checkpoint.generation
        sequence := best.elim 0 Checkpoint.sequence
        walBytes := 0
        walRecords := 0 }
      match ← Prog.content .wal with
      | none => pure (best, store)
      | some wal => store.loadWal best wal

def replaceFile (target : StoreFile) (bytes : Bytes) : StoreProg Bool := do
  let temporary := target.temporary
  if ← Prog.perform (.openTruncate temporary) then
    let wrote ← Prog.both (Prog.perform (.append temporary bytes)) (Prog.perform (.sync temporary))
    let closed ← Prog.perform (.close temporary)
    if wrote && closed then
      let verified ← readFile temporary (max (kMaxPayloadBytes + 128) bytes.length)
      if verified = some bytes then
        if ← Prog.perform (.rename temporary target) then
          -- The directory is synced if that is possible.
          let _ ← Prog.perform .syncDirectory
          pure true
        else
          let _ ← Prog.perform (.remove temporary)
          pure false
      else
        let _ ← Prog.perform (.remove temporary)
        pure false
    else
      let _ ← Prog.perform (.remove temporary)
      pure false
  else pure false

def appendFile (target : StoreFile) (bytes : Bytes) : StoreProg Bool := do
  let existing ← Prog.content target
  let rollbackSize := (existing.map List.length).getD 0
  if existing.any fun existing =>
      existing.length > kMaxWalFileBytes || bytes.length > kMaxWalFileBytes - existing.length then pure false
  else if ← Prog.perform (.openAppend target) then
    let wrote ← Prog.both (Prog.perform (.append target bytes)) (Prog.perform (.sync target))
    let closed ← Prog.perform (.close target)
    if wrote && closed then pure true
    else
      -- Whether the rollback works only decides the error message.
      let _ ← Prog.perform (.resize target rollbackSize)
      pure false
  else pure false

def appendPatch (store : Store) (patch : DirtyPatch) : StoreProg (Bool × Store) :=
  let next := if store.sequence = uint64Max then store.sequence else store.sequence + 1
  let record := walRecordBytes patch store.generation next
  if store.ready = false ∨ store.generation = 0 then pure (false, store)
  else if next = store.sequence then pure (false, store)
  else if record = [] then pure (false, store)
  else if record.length > kMaxWalFileBytes ∨ store.walBytes > kMaxWalFileBytes - record.length then
    pure (false, store)
  else do
    if ← appendFile .wal record then
      pure (true, { store with
        sequence := next
        walBytes := store.walBytes + record.length
        walRecords := store.walRecords + 1 })
    else pure (false, store)

def checkpointFile (generation : UInt64) : StoreFile :=
  if generation % 2 = 1 then .checkpointA else .checkpointB

def writeCheckpoint (store : Store) (image : PersistentImage) : StoreProg (Bool × Store) :=
  let next := if store.generation = uint64Max then store.generation else store.generation + 1
  let bytes := checkpointBytes image next store.sequence
  if store.ready = false then pure (false, store)
  else if next = store.generation then pure (false, store)
  else if bytes = [] then pure (false, store)
  else do
    if ← replaceFile (checkpointFile next) bytes then
      let verified ← inspectCheckpoint (checkpointFile next)
      if verified.any fun found => found.generation = next && found.sequence = store.sequence then
        truncateWal { store with generation := next }
      else pure (false, store)
    else pure (false, store)

end Store

end SubConverter.Statistics
