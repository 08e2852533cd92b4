import SubConverter.Lib.Interleaving
import SubConverter.Statistics.Recovery

set_option autoImplicit false

namespace SubConverter.Statistics

open Wire
open Fs (Prog Disk Fault Op File)

section Operations

variable {allow : Op StoreFile → Fault → Prop}

/-- The log after the steps of `appendFile` that were taken. -/
inductive Appending (file : File) (bytes : Bytes) : File → Prop where
  | opened : Appending file bytes file
  | written (size : Nat) : Appending file bytes (file.update (.append (bytes.take size)))
  | synced : Appending file bytes (file.update (.append bytes)).synced
  | rolledBack {after : File} (appending : Appending file bytes after) :
    Appending file bytes (after.update (.resize file.content.length))

theorem Appending.content {file after : File} {bytes : Bytes} (appending : Appending file bytes after) :
    ∃ size, after.content = file.content ++ bytes.take size := by
  induction appending with
  | opened => exact ⟨0, by simp⟩
  | written size => exact ⟨size, File.content_update _ _⟩
  | synced => exact ⟨bytes.length, by simp [Fs.Update.apply]⟩
  | rolledBack appending ih =>
    obtain ⟨size, same⟩ := ih
    refine ⟨0, ?_⟩
    rw [File.content_update, Fs.Update.resize_of_le (by simp [same]), same]
    simp

theorem append_sync_keeps {bytes : Bytes} {disk : Disk StoreFile} {file : File} :
    (Prog.both (Prog.perform (.append .wal bytes)) (Prog.perform (.sync .wal))).Keeps allow (fun _ => True)
      (fun wrote now => ∃ after, Appending file bytes after ∧ now = disk.set .wal (some after) ∧
        (wrote = true → after = (file.update (.append bytes)).synced)) (disk.set .wal (some file)) := by
  have whole : Appending file bytes (file.update (.append (bytes.take bytes.length))) := .written bytes.length
  rw [List.take_length] at whole
  refine Prog.Keeps.both ?_
  refine Prog.Keeps.perform trivial (fun written _ => ?_) fun _ => ?_
  · simp only [Op.fail, Disk.change_some (Disk.set_same _ _ _), Disk.set_set]
    exact ⟨_, .written written, rfl, by simp⟩
  simp only [Op.perform, Disk.change_some (Disk.set_same _ _ _), Disk.set_set, if_true]
  refine Prog.Keeps.perform trivial (fun _ _ => ?_) fun _ => ?_
  · exact ⟨_, whole, rfl, by simp⟩
  · simp only [Op.perform, Disk.change_some (Disk.set_same _ _ _), Disk.set_set]
    exact ⟨_, .synced, rfl, fun _ => rfl⟩

theorem appendFile_keeps {post : Bool → Disk StoreFile → Prop} {bytes : Bytes} {disk : Disk StoreFile} {file : File}
    (present : (disk .wal).getD {} = file) (small : bytes.length ≤ kMaxWalFileBytes) (refused : post false disk)
    (failed : ∀ after, Appending file bytes after → file.content.length + bytes.length ≤ kMaxWalFileBytes →
      post false (disk.set .wal (some after)))
    (done : file.content.length + bytes.length ≤ kMaxWalFileBytes →
      post true (disk.set .wal (some (file.update (.append bytes)).synced))) :
    (Store.appendFile .wal bytes).Keeps allow (fun _ => True) post disk := by
  have old : ((disk.content .wal).map List.length).getD 0 = file.content.length := by
    rw [← present, Disk.content]
    cases disk .wal <;> rfl
  refine Prog.Keeps.content rfl ?_
  rw [old]
  split
  · exact refused
  rename_i fits
  have room : file.content.length + bytes.length ≤ kMaxWalFileBytes := by
    rw [← present]
    cases there : disk .wal with
    | none => simpa [there, File.content] using small
    | some existing =>
      simp only [Disk.content, there, Option.map_some, Option.any_some, Bool.or_eq_true, decide_eq_true_eq] at fits
      simp only [Option.getD_some]
      omega
  refine Prog.Keeps.bind (Prog.Keeps.perform trivial (fun _ _ => refused) fun _ => ?_)
  simp only [Op.perform, present]
  refine Prog.Keeps.bind (append_sync_keeps.mono ?_)
  rintro wrote now ⟨after, appending, rfl, whole⟩
  -- Closing changes nothing, so what failed before it and what fails in it leave the same log.
  have undone : (Prog.perform (.resize .wal file.content.length) >>= fun _ => (pure false : StoreProg Bool)).Keeps allow
      (fun _ => True) post (disk.set .wal (some after)) := by
    refine Prog.Keeps.bind (Prog.Keeps.perform trivial (fun _ _ => failed _ appending room) fun _ => ?_)
    simp only [Op.perform, Disk.change_some (Disk.set_same _ _ _), Disk.set_set]
    exact failed _ appending.rolledBack room
  refine Prog.Keeps.bind (Prog.Keeps.perform trivial (fun _ _ => ?_) fun _ => ?_)
  · rw [Bool.and_false]
    exact undone
  · cases wrote with
    | true =>
      rw [whole rfl]
      exact done room
    | false => exact undone

-- The disks that differ at the temporary file at most.
def SameBut (temporary : StoreFile) (disk now : Disk StoreFile) : Prop :=
  ∀ name, name ≠ temporary → now name = disk name

theorem SameBut.set {temporary : StoreFile} {disk now : Disk StoreFile} (same : SameBut temporary disk now)
    (file : Option File) : SameBut temporary disk (now.set temporary file) := by
  intro name other
  rw [Disk.set_other _ _ other, same name other]

theorem write_sync_keeps {temporary : StoreFile} {bytes : Bytes} {disk now : Disk StoreFile} {file : File}
    (blank : file.content = []) (same : SameBut temporary disk now) (there : now temporary = some file) :
    (Prog.both (Prog.perform (.append temporary bytes)) (Prog.perform (.sync temporary))).Keeps allow (fun _ => True)
      (fun wrote now => SameBut temporary disk now ∧ (wrote = true → now temporary = some { stable := bytes })) now := by
  refine Prog.Keeps.both ?_
  refine Prog.Keeps.perform trivial (fun written _ => ?_) fun _ => ?_
  · simp only [Op.fail, Disk.change_some there]
    exact ⟨same.set _, by simp⟩
  simp only [Op.perform, Disk.change_some there, if_true]
  refine Prog.Keeps.perform trivial (fun _ _ => ?_) fun _ => ?_
  · exact ⟨same.set _, by simp⟩
  · simp only [Op.perform, Disk.change_some (Disk.set_same _ _ _), Disk.set_set]
    refine ⟨same.set _, fun _ => ?_⟩
    rw [Disk.set_same, File.synced, File.content_update, blank]
    rfl

theorem replaceFile_keeps {post : Bool → Disk StoreFile → Prop} {target : StoreFile} {bytes : Bytes}
    {disk : Disk StoreFile} (refused : ∀ now, SameBut target.temporary disk now → post false now)
    (installed : ∀ now, now target = some { stable := bytes } →
      (∀ name, name ≠ target.temporary → name ≠ target → now name = disk name) → post true now) :
    (Store.replaceFile target bytes).Keeps allow (fun _ => True) post disk := by
  have start : SameBut target.temporary disk disk := fun _ _ => rfl
  have removed {now : Disk StoreFile} (same : SameBut target.temporary disk now) :
      (Prog.perform (.remove target.temporary) >>= fun _ => (pure false : StoreProg Bool)).Keeps allow (fun _ => True)
        post now :=
    Prog.Keeps.bind (Prog.Keeps.perform trivial (fun _ _ => refused _ same) fun _ => refused _ (same.set _))
  refine Prog.Keeps.bind (Prog.Keeps.perform trivial (fun _ _ => refused _ start) fun _ => ?_)
  simp only [Op.perform]
  refine Prog.Keeps.bind ((write_sync_keeps ?_ (start.set _) (Disk.set_same _ _ _)).mono ?_)
  · rw [File.content_update, Fs.Update.resize_of_le (Nat.zero_le _), List.take_zero]
  rintro wrote now ⟨same, whole⟩
  refine Prog.Keeps.bind (Prog.Keeps.perform trivial (fun _ _ => ?_) fun _ => ?_)
  · rw [Bool.and_false]
    exact removed same
  cases wrote with
  | false => exact removed same
  | true =>
    refine Prog.Keeps.bind (Prog.Keeps.content rfl ?_)
    change Prog.Keeps allow (fun _ => True) post (if _ then _ else _) now
    split
    · have done := installed ((now.set target.temporary none).set target (some { stable := bytes })) (Disk.set_same _ _ _)
        (fun name other apart => by rw [Disk.set_other _ _ apart, Disk.set_other _ _ other, same name other])
      refine Prog.Keeps.bind (Prog.Keeps.perform trivial (fun _ _ => removed same) fun _ => ?_)
      simp only [Op.perform, whole rfl]
      exact Prog.Keeps.bind (Prog.Keeps.perform trivial (fun _ _ => done) fun _ => done)
    · exact removed same

theorem storedCheckpoint_congr {disk now : Disk StoreFile} (first : now .checkpointA = disk .checkpointA)
    (second : now .checkpointB = disk .checkpointB) : storedCheckpoint now = storedCheckpoint disk := by
  simp only [storedCheckpoint, Disk.content, first, second]

theorem generation_le_newest {first second : Option Checkpoint} {checkpoint : Checkpoint}
    (here : first = some checkpoint ∨ second = some checkpoint) :
    checkpoint.generation ≤ (newest first second).elim 0 Checkpoint.generation := by
  unfold newest
  grind

theorem newest_of_newer {first second : Option Checkpoint} {checkpoint : Checkpoint}
    (newer : (newest first second).elim 0 Checkpoint.generation < checkpoint.generation) :
    newest (some checkpoint) second = some checkpoint ∧ newest first (some checkpoint) = some checkpoint := by
  have left {old : Checkpoint} (here : first = some old) :
      old.generation ≤ (newest first second).elim 0 Checkpoint.generation := generation_le_newest (.inl here)
  have right {old : Checkpoint} (here : second = some old) :
      old.generation ≤ (newest first second).elim 0 Checkpoint.generation := generation_le_newest (.inr here)
  constructor
  · cases found : second with
    | none => rfl
    | some old => exact if_pos (.inl (UInt64.lt_of_le_of_lt (right found) newer))
  · cases found : first with
    | none => rfl
    | some old =>
      have before := UInt64.lt_of_le_of_lt (left found) newer
      exact if_neg (by grind)

theorem storedCheckpoint_installed {disk now : Disk StoreFile} {generation : UInt64} {checkpoint : Checkpoint}
    (read : inspected (now.content (Store.checkpointFile generation)) = some checkpoint)
    (others : ∀ name, name ≠ (Store.checkpointFile generation).temporary → name ≠ Store.checkpointFile generation →
      now name = disk name)
    (newer : (storedCheckpoint disk).elim 0 Checkpoint.generation < checkpoint.generation) :
    storedCheckpoint now = some checkpoint := by
  obtain ⟨first, second⟩ := newest_of_newer newer
  unfold Store.checkpointFile at read others
  split at read
  · rename_i odd
    simp only [odd, if_true] at others
    have kept : now.content .checkpointB = disk.content .checkpointB := by
      rw [Disk.content, others .checkpointB (by decide) (by decide), Disk.content]
    rw [storedCheckpoint, read, kept, first]
  · rename_i even
    simp only [even, if_false] at others
    have kept : now.content .checkpointA = disk.content .checkpointA := by
      rw [Disk.content, others .checkpointA (by decide) (by decide), Disk.content]
    rw [storedCheckpoint, read, kept, second]

theorem succ_of_ne_max {value : UInt64} (room : value ≠ uint64Max) :
    value < value + 1 ∧ value + 1 ≠ value ∧ value + 1 ≠ 0 := by
  have bound := value.toNat_lt
  have below : value.toNat ≠ 2 ^ 64 - 1 := fun same => room (UInt64.toNat_inj.mp same)
  have next : (value + 1).toNat = value.toNat + 1 := by
    rw [UInt64.toNat_add]
    exact Nat.mod_eq_of_lt (by change value.toNat + 1 < 2 ^ 64; omega)
  refine ⟨UInt64.lt_iff_toNat_lt.mpr (by omega), ?_, ?_⟩
  · intro same
    rw [same] at next
    omega
  · intro zero
    rw [zero] at next
    exact absurd next (by simp)

theorem writeCheckpoint_keeps {post : Bool × Store → Disk StoreFile → Prop} {store : Store} {image : PersistentImage}
    {disk : Disk StoreFile} (valid : image.Valid)
    (known : (storedCheckpoint disk).elim 0 Checkpoint.generation = store.generation)
    (refused : ∀ temporary now, temporary = .temporaryA ∨ temporary = .temporaryB → SameBut temporary disk now →
      post (false, store) now)
    (installed : ∀ (ok : Bool) (after : Store) now, after.generation = store.generation + 1 →
      after.sequence = store.sequence → storedCheckpoint now =
        some { generation := after.generation, sequence := after.sequence, image := image.normalized } →
      post (ok, after) now) : (store.writeCheckpoint image).Keeps allow (fun _ => True) post disk := by
  have unchanged := refused .temporaryA disk (.inl rfl) (fun _ _ => rfl)
  unfold Store.writeCheckpoint
  dsimp only
  split
  · exact unchanged
  by_cases full : store.generation = uint64Max
  · rw [if_pos (if_pos full)]
    exact unchanged
  obtain ⟨newer, moved, nonzero⟩ := succ_of_ne_max full
  rw [if_neg full, if_neg moved]
  have encoded (fits : (encodeImagePayload image).length ≤ kMaxCheckpointPayloadBytes) :=
    inspected_checkpointBytes image _ store.sequence valid fits nonzero
  have oversized (large : kMaxCheckpointPayloadBytes < (encodeImagePayload image).length) :
      checkpointBytes image (store.generation + 1) store.sequence = [] := if_pos large
  generalize checkpointBytes image (store.generation + 1) store.sequence = bytes at encoded oversized ⊢
  split
  · exact unchanged
  rename_i written
  have read := encoded (not_lt.mp fun large => written (oversized large))
  have slot : (Store.checkpointFile (store.generation + 1)).temporary = .temporaryA ∨
      (Store.checkpointFile (store.generation + 1)).temporary = .temporaryB := by
    unfold Store.checkpointFile
    split
    · exact .inl rfl
    · exact .inr rfl
  refine Prog.Keeps.bind (replaceFile_keeps (fun now same => refused _ now slot same) fun now there others => ?_)
  have content : now.content (Store.checkpointFile (store.generation + 1)) = some bytes := content_of_stable there
  have newest := storedCheckpoint_installed (by rw [content]; exact read) others (by rw [known]; exact newer)
  have cut (ok : Bool) (after : Store) (generation : after.generation = store.generation + 1)
      (sequence : after.sequence = store.sequence) (file : File) : post (ok, after) (now.set .wal (some file)) := by
    refine installed ok after _ generation sequence ?_
    rw [generation, sequence, ← newest]
    exact storedCheckpoint_congr (Disk.set_other _ _ (by decide)) (Disk.set_other _ _ (by decide))
  refine Prog.Keeps.bind (Prog.Keeps.content content ?_)
  change Prog.Keeps allow (fun _ => True) post (if (inspected (some bytes)).any _ then _ else _) now
  rw [read]
  simp only [Option.any_some, decide_true, Bool.and_self, if_true]
  let named : Store := { store with generation := store.generation + 1 }
  exact Store.truncateWalTo_keeps named 0 0 now _ rfl trivial trivial trivial trivial
    (fun _ _ => installed false named now rfl rfl newest) (fun _ _ => cut false named rfl rfl _)
    (fun _ _ => cut false named rfl rfl _) (fun _ _ => cut false named rfl rfl _)
    (cut true { named with walBytes := 0, walRecords := 0 } rfl rfl _)

-- The record `appendPatch` writes.
def Store.following (store : Store) (patch : DirtyPatch) : WalRecord :=
  { generation := store.generation, sequence := store.sequence + 1, payload := encodePatchPayload patch }

-- What has been checked when `appendPatch` opens the log.
structure Store.Appendable (store : Store) (patch : DirtyPatch) (file : File) : Prop where
  ready : store.ready = true
  started : store.generation ≠ 0
  unexhausted : store.sequence ≠ uint64Max
  fits : (store.following patch).payload.length ≤ kMaxWalPayloadBytes
  room : file.content.length + (encodeRecord (store.following patch)).length ≤ kMaxWalFileBytes

theorem appendPatch_keeps {post : Bool × Store → Disk StoreFile → Prop} {store : Store} {patch : DirtyPatch}
    {disk : Disk StoreFile} {file : File} (present : (disk .wal).getD {} = file) (refused : post (false, store) disk)
    (failed : ∀ after, store.Appendable patch file → Appending file (encodeRecord (store.following patch)) after →
      post (false, store) (disk.set .wal (some after)))
    (done : ∀ next : Store, store.Appendable patch file → next.generation = store.generation →
      next.sequence = store.sequence + 1 →
      post (true, next) (disk.set .wal (some (file.update (.append (encodeRecord (store.following patch)))).synced))) :
    (store.appendPatch patch).Keeps allow (fun _ => True) post disk := by
  unfold Store.appendPatch
  dsimp only
  split
  · exact refused
  rename_i active
  rw [not_or] at active
  have ready : store.ready = true := by simpa using active.1
  by_cases full : store.sequence = uint64Max
  · rw [if_pos (if_pos full)]
    exact refused
  rw [if_neg full, if_neg (succ_of_ne_max full).2.1]
  have long (large : (encodePatchPayload patch).length > kMaxWalPayloadBytes) :
      walRecordBytes patch store.generation (store.sequence + 1) = [] := if_pos (.inl large)
  have short (fits : (encodePatchPayload patch).length ≤ kMaxWalPayloadBytes) :
      walRecordBytes patch store.generation (store.sequence + 1) = encodeRecord (store.following patch) := by
    have limit : kMaxWalPayloadBytes = 8388608 := by decide
    exact if_neg (by omega)
  generalize walRecordBytes patch store.generation (store.sequence + 1) = record at long short ⊢
  split
  · exact refused
  rename_i made
  have fits : (encodePatchPayload patch).length ≤ kMaxWalPayloadBytes := not_lt.mp fun large => made (long large)
  obtain rfl := short fits
  split
  · exact refused
  rename_i small
  have appendable (room : file.content.length + (encodeRecord (store.following patch)).length ≤ kMaxWalFileBytes) :
      store.Appendable patch file := ⟨ready, active.2, full, fits, room⟩
  refine Prog.Keeps.bind (appendFile_keeps present (by omega) refused ?_ ?_)
  · exact fun after appending room => failed after (appendable room) appending
  · exact fun room => done _ (appendable room) rfl rfl

-- Nothing a load meets on its way changes the image it returns.
theorem load_image {store : Store} (faults : Op StoreFile → Fault) {disk : Disk StoreFile} {checkpoint : Checkpoint}
    (ready : store.ready = true) (found : storedCheckpoint disk = some checkpoint)
    (small : ((disk.content .wal).getD []).length ≤ kMaxWalFileBytes) :
    (store.load.exec faults disk).1.1 = some (checkpoint.replay ((disk.content .wal).getD [])).state := by
  have keeps : store.load.Keeps (fun op fault => fault = faults op) (fun _ => True)
      (fun value _ => value.1 = some (checkpoint.replay ((disk.content .wal).getD [])).state) disk := by
    apply Store.load_keeps store disk ready
    · intro none
      rw [found] at none
      contradiction
    · intro absent
      rw [found, absent]
      rfl
    · intro wal present
      rw [present, Option.getD_some] at small ⊢
      rw [found]
      unfold Store.loadWal
      rw [if_neg (not_lt.mpr small)]
      dsimp only
      split
      · rfl
      · exact Prog.Keeps.bind (Store.truncateWalTo_keeps _ _ _ disk _ rfl trivial trivial trivial trivial
          (fun _ _ => rfl) (fun _ _ => rfl) (fun _ _ => rfl) (fun _ _ => rfl) rfl)
  exact keeps.exec

end Operations

section Calls

-- What each file operation of the call comes to.
inductive StoreCall where
  | append (patch : DirtyPatch) (faults : Op StoreFile → Fault)
  | checkpoint (image : PersistentImage) (faults : Op StoreFile → Fault)

/-- A `Store` in use: the image of its newest checkpoint, the patches acknowledged since, those whose append
failed and left something in the log, and whether that checkpoint left the log of an older one uncut. -/
structure StoreRun where
  store : Store
  disk : Disk StoreFile
  base : PersistentImage
  patches : List DirtyPatch := []
  failed : List DirtyPatch := []
  stale : Bool := false

namespace StoreRun

def log (run : StoreRun) : Bytes := (run.disk.content .wal).getD []

def start (disk : Disk StoreFile) (faults : Op StoreFile → Fault) : StoreRun :=
  let once := (Store.opened {}).load.exec faults disk
  { store := once.1.2, disk := once.2, base := once.1.1.elim {} Checkpoint.image }

def appended (run : StoreRun) (patch : DirtyPatch) (ok : Bool) (store : Store) (disk : Disk StoreFile) : StoreRun :=
  let after := { run with store, disk }
  if ok then { after with patches := run.patches ++ [patch] }
  else if after.log = run.log then after
  else { after with failed := run.failed ++ [patch] }

def checkpointed (run : StoreRun) (image : PersistentImage) (store : Store) (disk : Disk StoreFile) : StoreRun :=
  let after := { run with store, disk }
  if store.generation = run.store.generation then after
  else { store, disk, base := image.normalized, stale := !after.log.isEmpty }

def called (run : StoreRun) : StoreCall → StoreRun
  | .append patch faults =>
    let once := (run.store.appendPatch patch).exec faults run.disk
    run.appended patch once.1.1 once.1.2 once.2
  | .checkpoint image faults =>
    let once := (run.store.writeCheckpoint image).exec faults run.disk
    run.checkpointed image once.1.2 once.2

-- Every call can be made in every state.
def step (run : StoreRun) (call : StoreCall) : Option StoreRun := some (run.called call)

def expected (run : StoreRun) (patches : List DirtyPatch) : PersistentImage :=
  patches.foldl (fun image patch => applyPatch image patch.normalized) run.base

/-- Whatever a later load meets, the image it returns includes every patch acknowledged since the checkpoint. -/
def Recoverable (run : StoreRun) : Prop :=
  run.patches ≠ [] → ∀ (store : Store) faults, store.ready = true → ∃ loaded extra, extra <+: run.failed ∧
    (store.load.exec faults run.disk).1.1 = some loaded ∧ loaded.image = run.expected (run.patches ++ extra)

-- An append meets a log that ends with the last acknowledged one.
def Meets (run : StoreRun) : StoreCall → Prop
  | .append patch _ => patch.Valid ∧ run.failed = [] ∧ run.stale = false
  | .checkpoint image _ => image.Valid

/-- The end of the log, behind the records that are replayed to `reached`. -/
inductive Left (reached : Checkpoint) (sequence : UInt64) : List DirtyPatch → Bytes → Prop where
  | nothing (current : reached.sequence = sequence) : Left reached sequence [] []
  | part {patch : DirtyPatch} {record : WalRecord} {after : Checkpoint} (size : Nat)
    (fits : record.payload.length ≤ kMaxWalPayloadBytes) (accepted : reached.accept record = some after)
    (image : after.image = applyPatch reached.image patch.normalized) :
    Left reached sequence [patch] ((encodeRecord record).take size)

structure Kept (run : StoreRun) (checkpoint reached : Checkpoint) (records : List WalRecord) (rest : Bytes) : Prop where
  found : storedCheckpoint run.disk = some checkpoint
  generation : checkpoint.generation = run.store.generation
  log : run.log = recordsBytes records ++ rest
  small : run.log.length ≤ kMaxWalFileBytes
  fits : ∀ record ∈ records, record.payload.length ≤ kMaxWalPayloadBytes
  replayed : checkpoint.replayRecords records = some reached
  image : reached.image = run.expected run.patches
  left : Left reached run.store.sequence run.failed rest

inductive Standing (run : StoreRun) : Prop where
  | closed (ready : run.store.ready = false) (unwritten : run.patches = []) : Standing run
  | idle (known : (storedCheckpoint run.disk).elim 0 Checkpoint.generation = run.store.generation)
    (blocked : run.store.generation = 0 ∨ run.stale = true) (unwritten : run.patches = []) : Standing run
  | kept (checkpoint reached : Checkpoint) (records : List WalRecord) (rest : Bytes)
    (kept : run.Kept checkpoint reached records rest) : Standing run

theorem expected_append (run : StoreRun) (patches extra : List DirtyPatch) :
    run.expected (patches ++ extra) = extra.foldl (fun image patch => applyPatch image patch.normalized)
      (run.expected patches) := List.foldl_append

theorem replayRecords_concat {best reached after : Checkpoint} {records : List WalRecord} {record : WalRecord}
    (replayed : best.replayRecords records = some reached) (accepted : reached.accept record = some after) :
    best.replayRecords (records ++ [record]) = some after := by
  rw [Checkpoint.replayRecords, List.foldlM_append]
  exact Option.bind_eq_some_iff.mpr ⟨reached, replayed, by simp [accepted]⟩

theorem Kept.replay {run : StoreRun} {checkpoint reached : Checkpoint} {records : List WalRecord} {rest : Bytes}
    (kept : run.Kept checkpoint reached records rest) : ∃ extra, extra <+: run.failed ∧
      (checkpoint.replay run.log).state.image = run.expected (run.patches ++ extra) := by
  have left := kept.left
  rw [kept.log]
  generalize run.failed = failed at left ⊢
  cases left with
  | nothing =>
    rw [replay_recordsBytes kept.fits kept.replayed (next_nil reached)]
    exact ⟨[], List.nil_prefix, by rw [List.append_nil, kept.image]⟩
  | @part patch record after size fits accepted image =>
    rcases Nat.lt_or_ge size (encodeRecord record).length with torn | whole
    · rw [replay_torn kept.fits kept.replayed fits torn]
      exact ⟨[], List.nil_prefix, by rw [List.append_nil, kept.image]⟩
    · have all := replayRecords_concat kept.replayed accepted
      have bytes : recordsBytes records ++ (encodeRecord record).take size = recordsBytes (records ++ [record]) ++ [] := by
        simp [recordsBytes, List.take_of_length_le whole]
      rw [bytes, replay_recordsBytes (by simpa [or_imp, forall_and] using ⟨kept.fits, fits⟩) all (next_nil after)]
      refine ⟨[patch], List.prefix_rfl, ?_⟩
      rw [expected_append, ← kept.image]
      exact image

theorem Standing.recoverable {run : StoreRun} (standing : run.Standing) : run.Recoverable := by
  intro written store faults ready
  cases standing with
  | closed _ unwritten => exact absurd unwritten written
  | idle _ _ unwritten => exact absurd unwritten written
  | kept checkpoint _ _ _ kept =>
    obtain ⟨extra, before, image⟩ := kept.replay
    exact ⟨(checkpoint.replay run.log).state, extra, before, load_image faults ready kept.found kept.small, image⟩

theorem Standing.of_replay {store : Store} {disk : Disk StoreFile} {checkpoint : Checkpoint} {base : PersistentImage}
    {stale : Bool} (wal rest : Bytes) (found : storedCheckpoint disk = some checkpoint)
    (generation : checkpoint.generation = store.generation)
    (sequence : (checkpoint.replay wal).state.sequence = store.sequence) (small : wal.length ≤ kMaxWalFileBytes)
    (layout : wal = (disk.content .wal).getD [] ++ rest) (tail : (checkpoint.replay wal).tail = rest)
    (image : (checkpoint.replay wal).state.image = base) : ({ store, disk, base, stale } : StoreRun).Standing := by
  obtain ⟨records, replayed, fits, split, -, -⟩ := replay_spec checkpoint wal
  rw [tail] at split
  have log := List.append_cancel_right (layout.symm.trans split)
  refine .kept checkpoint (checkpoint.replay wal).state records []
    ⟨found, generation, ?_, ?_, fits, replayed, image, .nothing sequence⟩
  · rw [List.append_nil]
    exact log
  · rw [layout, List.length_append] at small
    exact (Nat.le_add_right _ _).trans small

theorem log_eq (run : StoreRun) : run.log = ((run.disk .wal).getD {}).content := by
  rw [log, Disk.content]
  cases run.disk .wal <;> rfl

theorem Standing.on_disk {run : StoreRun} (standing : run.Standing) {now : Disk StoreFile}
    (found : storedCheckpoint now = storedCheckpoint run.disk) (log : ({ run with disk := now } : StoreRun).log = run.log) :
    ({ run with disk := now } : StoreRun).Standing := by
  cases standing with
  | closed ready unwritten => exact .closed ready unwritten
  | idle known blocked unwritten => exact .idle (by rw [← known, ← found]) blocked unwritten
  | kept checkpoint reached records rest kept =>
    exact .kept checkpoint reached records rest ⟨found.trans kept.found, kept.generation, log.trans kept.log,
      log ▸ kept.small, kept.fits, kept.replayed, kept.image, kept.left⟩

theorem replayRecords_generation {best final : Checkpoint} {records : List WalRecord}
    (replayed : best.replayRecords records = some final) : final.generation = best.generation := by
  induction records generalizing best with
  | nil =>
    cases replayed
    rfl
  | cons record rest ih =>
    obtain ⟨middle, accepted, later⟩ := Option.bind_eq_some_iff.mp replayed
    rw [ih later]
    unfold Checkpoint.accept at accepted
    grind

theorem accept_following {reached : Checkpoint} {store : Store} {patch : DirtyPatch} {file : File} (valid : patch.Valid)
    (appendable : store.Appendable patch file) (generation : reached.generation = store.generation)
    (current : reached.sequence = store.sequence) :
    reached.accept (store.following patch) = some { reached with
      sequence := store.sequence + 1
      image := applyPatch reached.image patch.normalized } := by
  have applied := decodeAndApplyPatch_encodePatchPayload reached.image patch valid appendable.fits
  have newer := (succ_of_ne_max appendable.unexhausted).1
  unfold Checkpoint.accept Store.following
  dsimp only
  rw [if_neg (by simp [generation]), current, if_neg (by grind), if_neg (by simp), applied]
  rfl

theorem appended_refused (run : StoreRun) (patch : DirtyPatch) : run.appended patch false run.store run.disk = run :=
  if_pos rfl

theorem Kept.appended {run : StoreRun} {checkpoint reached : Checkpoint} {records : List WalRecord} {rest : Bytes}
    (kept : run.Kept checkpoint reached records rest) {patch : DirtyPatch} (valid : patch.Valid) (whole : run.failed = [])
    (faults : Op StoreFile → Fault) :
    (run.store.appendPatch patch).Keeps (fun op fault => fault = faults op) (fun _ => True)
      (fun value now => (run.appended patch value.1 value.2 now).Standing) run.disk := by
  obtain ⟨rfl, current⟩ : rest = [] ∧ reached.sequence = run.store.sequence := by
    have left := kept.left
    rw [whole] at left
    cases left with
    | nothing current => exact ⟨rfl, current⟩
  have reachedGeneration : reached.generation = run.store.generation :=
    (replayRecords_generation kept.replayed).trans kept.generation
  have log := run.log_eq
  have found (file : File) : storedCheckpoint (run.disk.set .wal (some file)) = some checkpoint := by
    rw [← kept.found]
    exact storedCheckpoint_congr (Disk.set_other _ _ (by decide)) (Disk.set_other _ _ (by decide))
  generalize present : (run.disk .wal).getD {} = file at log
  refine appendPatch_keeps present ?_ ?_ ?_
  · rw [appended_refused]
    exact .kept _ _ _ _ kept
  · intro after appendable appending
    have content : ({ run with disk := run.disk.set .wal (some after) } : StoreRun).log = after.content := by
      rw [StoreRun.log, Disk.content_set_same]
      rfl
    unfold StoreRun.appended
    dsimp only
    rw [if_neg (by simp), content]
    split
    · rename_i undone
      exact Standing.on_disk (.kept _ _ _ _ kept) ((found after).trans kept.found.symm) (content.trans undone)
    · obtain ⟨size, extended⟩ := appending.content
      refine .kept checkpoint reached records ((encodeRecord (run.store.following patch)).take size)
        ⟨found after, kept.generation, ?_, ?_, kept.fits, kept.replayed, kept.image, ?_⟩
      · rw [← List.append_nil (recordsBytes records), ← kept.log, log, ← extended]
        exact content
      · refine (congrArg List.length (content.trans extended)).trans_le ?_
        have room := appendable.room
        rw [List.length_append, List.length_take]
        omega
      · dsimp only
        rw [whole]
        exact .part size appendable.fits (accept_following valid appendable reachedGeneration current) rfl
  · intro next appendable generation sequence
    have content : ({ run with disk := run.disk.set .wal (some
        (file.update (.append (encodeRecord (run.store.following patch)))).synced) } : StoreRun).log =
        run.log ++ encodeRecord (run.store.following patch) := by
      rw [StoreRun.log, Disk.content_set_same, log]
      exact File.content_update _ _
    obtain ⟨reached', accepted, sequence', image'⟩ :
        ∃ reached', reached.accept (run.store.following patch) = some reached' ∧
          reached'.sequence = next.sequence ∧ reached'.image = applyPatch reached.image patch.normalized :=
      ⟨_, accept_following valid appendable reachedGeneration current, sequence.symm, rfl⟩
    refine .kept checkpoint reached' (records ++ [run.store.following patch]) []
      ⟨found _, kept.generation.trans generation.symm, ?_, ?_, ?_, ?_, ?_, ?_⟩
    · refine content.trans ?_
      rw [kept.log]
      simp [recordsBytes]
    · refine (congrArg List.length content).trans_le ?_
      rw [List.length_append, log]
      exact appendable.room
    · simpa [or_imp, forall_and] using ⟨kept.fits, appendable.fits⟩
    · exact replayRecords_concat kept.replayed accepted
    · rw [image', kept.image]
      exact (expected_append run run.patches [patch]).symm
    · change Left reached' next.sequence run.failed []
      rw [whole]
      exact .nothing sequence'

theorem Standing.append {run : StoreRun} (standing : run.Standing) {patch : DirtyPatch} (valid : patch.Valid)
    (whole : run.failed = []) (current : run.stale = false) (faults : Op StoreFile → Fault) :
    (run.store.appendPatch patch).Keeps (fun op fault => fault = faults op) (fun _ => True)
      (fun value now => (run.appended patch value.1 value.2 now).Standing) run.disk := by
  have unchanged : (run.appended patch false run.store run.disk).Standing := by
    rw [appended_refused]
    exact standing
  have never (blocked : ∀ file, ¬run.store.Appendable patch file) :
      (run.store.appendPatch patch).Keeps (fun op fault => fault = faults op) (fun _ => True)
        (fun value now => (run.appended patch value.1 value.2 now).Standing) run.disk :=
    appendPatch_keeps rfl unchanged (fun _ appendable => absurd appendable (blocked _))
      (fun _ appendable => absurd appendable (blocked _))
  cases standing with
  | closed ready unwritten =>
    exact never fun _ appendable => absurd appendable.ready (by simp [ready])
  | idle known blocked unwritten =>
    rcases blocked with empty | stale
    · exact never fun _ appendable => appendable.started empty
    · simp [stale] at current
  | kept _ _ _ _ kept => exact kept.appended valid whole faults

theorem Standing.checkpoint {run : StoreRun} (standing : run.Standing) {image : PersistentImage} (valid : image.Valid)
    (faults : Op StoreFile → Fault) :
    (run.store.writeCheckpoint image).Keeps (fun op fault => fault = faults op) (fun _ => True)
      (fun value now => (run.checkpointed image value.2 now).Standing) run.disk := by
  have refused (now : Disk StoreFile) (same : storedCheckpoint now = storedCheckpoint run.disk)
      (log : now .wal = run.disk .wal) : (run.checkpointed image run.store now).Standing := by
    have kept : run.checkpointed image run.store now = { run with disk := now } := if_pos rfl
    rw [kept]
    refine standing.on_disk same ?_
    rw [log_eq, log_eq]
    simp [log]
  by_cases closed : run.store.ready = false
  · unfold Store.writeCheckpoint
    dsimp only
    rw [if_pos closed]
    exact refused run.disk rfl rfl
  have known : (storedCheckpoint run.disk).elim 0 Checkpoint.generation = run.store.generation := by
    cases standing with
    | closed ready => exact absurd ready closed
    | idle known => exact known
    | kept _ _ _ _ kept =>
      rw [kept.found]
      exact kept.generation
  refine writeCheckpoint_keeps valid known ?_ ?_
  · rintro temporary now (rfl | rfl) same
    · exact refused now (storedCheckpoint_congr (same _ (by decide)) (same _ (by decide))) (same _ (by decide))
    · exact refused now (storedCheckpoint_congr (same _ (by decide)) (same _ (by decide))) (same _ (by decide))
  · intro ok after now generation sequence found
    have moved : run.checkpointed image after now =
        ⟨after, now, image.normalized, [], [], !((now.content .wal).getD []).isEmpty⟩ :=
      if_neg (by rw [generation]; grind)
    rw [moved]
    cases log : (now.content .wal).getD [] with
    | nil => exact .of_replay [] [] found rfl rfl (Nat.zero_le _) (by rw [log]; rfl) rfl rfl
    | cons first rest =>
      refine .idle (by rw [found]; rfl) (.inr ?_) rfl
      simp

def seen (seconds : Int) : DirtyPatch := { runtime := { lastSeenAt := seconds } }

def unsynced : Op StoreFile → Fault
  | .sync _ => .fails 0
  | _ => .none

-- The second append fails and is rolled back.
def rolledBack : List StoreCall := [.checkpoint {} fun _ => .none, .append (seen 3) fun _ => .none,
  .append (seen 4) unsynced, .append (seen 5) fun _ => .none]

-- The second checkpoint is installed, and the log of the first one stays.
def uncut : List StoreCall := [.checkpoint {} fun _ => .none, .append (seen 3) fun _ => .none, .checkpoint {} fun
  | .resize _ _ => .fails 0
  | _ => .none, .append (seen 5) fun _ => .none]

end StoreRun

end Calls

end SubConverter.Statistics
