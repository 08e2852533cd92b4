import Mathlib
import SubConverter.Statistics.Store

set_option autoImplicit false

namespace SubConverter.Statistics

open Wire
open Fs (Prog Disk Fault Op File)
open PrefixScan (Accepts)

def inspected (bytes : Option Bytes) : Option Checkpoint :=
  (bytes.filter fun bytes => bytes.length ≤ kMaxCheckpointPayloadBytes + kCheckpointEnvelopeBytes).bind
    decodeCheckpoint

def storedCheckpoint (disk : Disk StoreFile) : Option Checkpoint :=
  newest (inspected (disk.content .checkpointA)) (inspected (disk.content .checkpointB))

namespace Store

-- The counters after the checkpoint files have been read.
def begun (store : Store) (best : Option Checkpoint) : Store :=
  { store with
    generation := best.elim 0 Checkpoint.generation
    sequence := best.elim 0 Checkpoint.sequence
    walBytes := 0
    walRecords := 0 }

variable {allow : Op StoreFile → Fault → Prop} {always : Disk StoreFile → Prop}

theorem load_keeps {post : Option Checkpoint × Store → Disk StoreFile → Prop} (store : Store)
    (disk : Disk StoreFile) (ready : store.ready = true)
    (oversized : storedCheckpoint disk = none → (oversizedCheckpoint (disk.content .checkpointA) = true ∨
      oversizedCheckpoint (disk.content .checkpointB) = true) → post (none, store.close) disk)
    (absent : disk.content .wal = none → post (storedCheckpoint disk, store.begun (storedCheckpoint disk)) disk)
    (present : ∀ wal, disk.content .wal = some wal →
      ((store.begun (storedCheckpoint disk)).loadWal (storedCheckpoint disk) wal).Keeps allow always post disk) :
    store.load.Keeps allow always post disk := by
  unfold load
  rw [if_neg (by simp [ready])]
  change Prog.Keeps allow always post (if (storedCheckpoint disk).isNone &&
    (oversizedCheckpoint (disk.content .checkpointA) || oversizedCheckpoint (disk.content .checkpointB)) then
      pure (storedCheckpoint disk, store.close) else _) disk
  split
  · rename_i large
    simp only [Bool.and_eq_true, Option.isNone_iff_eq_none, Bool.or_eq_true] at large
    have closed := oversized large.1 large.2
    rw [← large.1] at closed
    exact closed
  · cases content : disk.content .wal with
    | none => exact Prog.Keeps.content content (absent content)
    | some wal => exact Prog.Keeps.content content (present wal content)

theorem truncateWalTo_keeps {post : Bool × Store → Disk StoreFile → Prop} (store : Store) (size records : Nat)
    (disk : Disk StoreFile) (file : File) (present : (disk .wal).getD {} = file)
    (before : always disk) (opened : always (disk.set .wal (some file)))
    (cut : always (disk.set .wal (some (file.update (.resize size)))))
    (synced : always (disk.set .wal (some (file.update (.resize size)).synced)))
    (notOpened : ∀ written, allow (.openAppend .wal) (.fails written) → post (false, store) disk)
    (notCut : ∀ written, allow (.resize .wal size) (.fails written) →
      post (false, store) (disk.set .wal (some file)))
    (notSynced : ∀ written, allow (.sync .wal) (.fails written) →
      post (false, store) (disk.set .wal (some (file.update (.resize size)))))
    (notListed : ∀ written, allow .syncDirectory (.fails written) →
      post (false, store) (disk.set .wal (some (file.update (.resize size)).synced)))
    (done : post (true, { store with walBytes := size, walRecords := records })
      (disk.set .wal (some (file.update (.resize size)).synced))) :
    (store.truncateWalTo size records).Keeps allow always post disk := by
  refine Prog.Keeps.bind (Prog.Keeps.both (Prog.Keeps.perform before notOpened fun _ => ?_))
  simp only [Op.perform, present]
  refine Prog.Keeps.both (Prog.Keeps.perform opened notCut fun _ => ?_)
  simp only [Op.perform, Disk.change_some (Disk.set_same _ _ _), Disk.set_set]
  refine Prog.Keeps.both (Prog.Keeps.perform cut notSynced fun _ => ?_)
  simp only [Op.perform, Disk.change_some (Disk.set_same _ _ _), Disk.set_set]
  exact Prog.Keeps.perform synced notListed fun _ => done

end Store

def Checkpoint.replayRecords (best : Checkpoint) (records : List WalRecord) : Option Checkpoint :=
  records.foldlM Checkpoint.accept best

def recordsBytes (records : List WalRecord) : Bytes := records.flatMap encodeRecord

theorem accepts_of_replayRecords {best final : Checkpoint} {records : List WalRecord}
    (fits : ∀ record ∈ records, record.payload.length ≤ kMaxWalPayloadBytes)
    (valid : best.replayRecords records = some final) :
    Accepts Checkpoint.next best (records.map encodeRecord) final := by
  induction records generalizing best with
  | nil =>
    cases valid
    exact Accepts.nil _
  | cons record rest ih =>
    obtain ⟨middle, accepted, later⟩ := Option.bind_eq_some_iff.mp valid
    refine Accepts.cons ?_ ?_ (ih (fun other member => fits other (List.mem_cons_of_mem _ member)) later)
    · intro empty
      have length := length_encodeRecord record
      rw [empty, List.length_nil] at length
      omega
    · intro tail
      rw [Checkpoint.next, decodeRecord_encodeRecord record tail (fits record (by simp))]
      simp [accepted]

theorem replayRecords_of_accepts {best final : Checkpoint} {pieces : List Bytes}
    (accepted : Accepts Checkpoint.next best pieces final) :
    ∃ records : List WalRecord, pieces = records.map encodeRecord ∧
      (∀ record ∈ records, record.payload.length ≤ kMaxWalPayloadBytes) ∧
      best.replayRecords records = some final := by
  induction accepted with
  | nil best => exact ⟨[], rfl, by simp, rfl⟩
  | cons nonempty head tail ih =>
    obtain ⟨records, rfl, fits, valid⟩ := ih
    have read := head []
    obtain ⟨⟨record, after⟩, decoded, accepted⟩ := Option.bind_eq_some_iff.mp read
    obtain ⟨moved, found, same⟩ := Option.map_eq_some_iff.mp accepted
    obtain ⟨rfl, rfl⟩ := Prod.mk.inj same
    obtain ⟨layout, short⟩ := decodeRecord_sound decoded
    refine ⟨record :: records, ?_, ?_, ?_⟩
    · rw [List.map_cons, List.append_cancel_right layout]
    · intro other member
      rcases List.mem_cons.mp member with rfl | old
      · exact short
      · exact fits other old
    · exact Option.bind_eq_some_iff.mpr ⟨_, found, valid⟩

theorem flatten_map_encodeRecord (records : List WalRecord) :
    (records.map encodeRecord).flatten = recordsBytes records := by
  rw [recordsBytes, List.flatMap_def]

theorem replay_spec (best : Checkpoint) (wal : Bytes) :
    ∃ records : List WalRecord, best.replayRecords records = some (best.replay wal).state ∧
      (∀ record ∈ records, record.payload.length ≤ kMaxWalPayloadBytes) ∧
      wal = recordsBytes records ++ (best.replay wal).tail ∧ records.length = (best.replay wal).records ∧
      (best.replay wal).state.next (best.replay wal).tail = none := by
  obtain ⟨pieces, accepted, layout, count, stuck⟩ := PrefixScan.scan_spec next_framed best wal
  obtain ⟨records, rfl, fits, valid⟩ := replayRecords_of_accepts accepted
  rw [flatten_map_encodeRecord] at layout
  rw [List.length_map] at count
  exact ⟨records, valid, fits, layout, count, stuck⟩

theorem next_nil (best : Checkpoint) : best.next [] = none := by
  cases read : best.next [] with
  | none => rfl
  | some pair =>
    obtain ⟨record, nonempty, split⟩ := next_framed.sound read
    exact absurd (List.append_eq_nil_iff.mp split.symm).1 nonempty

theorem replay_recordsBytes {best final : Checkpoint} {records : List WalRecord} {tail : Bytes}
    (fits : ∀ record ∈ records, record.payload.length ≤ kMaxWalPayloadBytes)
    (valid : best.replayRecords records = some final) (refuses : final.next tail = none) :
    best.replay (recordsBytes records ++ tail) = ⟨final, tail, records.length⟩ := by
  have scanned := PrefixScan.scan_eq_of_accepts next_framed (accepts_of_replayRecords fits valid) refuses
  rw [flatten_map_encodeRecord, List.length_map] at scanned
  exact scanned

theorem replay_torn {best final : Checkpoint} {records : List WalRecord} {record : WalRecord} {size : Nat}
    (fits : ∀ record ∈ records, record.payload.length ≤ kMaxWalPayloadBytes)
    (valid : best.replayRecords records = some final) (small : record.payload.length ≤ kMaxWalPayloadBytes)
    (torn : size < (encodeRecord record).length) :
    best.replay (recordsBytes records ++ (encodeRecord record).take size) =
      ⟨final, (encodeRecord record).take size, records.length⟩ := by
  refine replay_recordsBytes fits valid ?_
  rw [Checkpoint.next, decodeRecord_take record size small torn]
  rfl

theorem encodeRecord_injective_map {left right : List WalRecord}
    (leftFits : ∀ record ∈ left, record.payload.length ≤ kMaxWalPayloadBytes)
    (rightFits : ∀ record ∈ right, record.payload.length ≤ kMaxWalPayloadBytes)
    (same : left.map encodeRecord = right.map encodeRecord) : left = right := by
  induction left generalizing right with
  | nil => exact (List.map_eq_nil_iff.mp same.symm).symm
  | cons record rest ih =>
    cases right with
    | nil => simp at same
    | cons other others =>
      simp only [List.map_cons, List.cons.injEq] at same
      have first := decodeRecord_encodeRecord record [] (leftFits record (by simp))
      rw [same.1, decodeRecord_encodeRecord other [] (rightFits other (by simp))] at first
      obtain ⟨rfl, -⟩ := Prod.mk.inj (Option.some.inj first)
      rw [ih (fun record member => leftFits record (List.mem_cons_of_mem _ member))
        (fun record member => rightFits record (List.mem_cons_of_mem _ member)) same.2]

theorem replayRecords_maximal {best final other : Checkpoint} {records others : List WalRecord}
    {tail rest : Bytes} (fits : ∀ record ∈ records, record.payload.length ≤ kMaxWalPayloadBytes)
    (valid : best.replayRecords records = some final) (refuses : final.next tail = none)
    (otherFits : ∀ record ∈ others, record.payload.length ≤ kMaxWalPayloadBytes)
    (otherValid : best.replayRecords others = some other)
    (same : recordsBytes records ++ tail = recordsBytes others ++ rest) : others <+: records := by
  rw [← flatten_map_encodeRecord, ← flatten_map_encodeRecord] at same
  obtain ⟨more, split, -⟩ := (accepts_of_replayRecords fits valid).covers
    (accepts_of_replayRecords otherFits otherValid) same refuses
  obtain ⟨front, back, rfl, front', -⟩ := List.map_eq_append_iff.mp split
  have equal := encodeRecord_injective_map
    (fun record member => fits record (List.mem_append_left _ member)) otherFits front'
  exact ⟨back, by rw [equal]⟩

-- What a load that meets no fault leaves behind.
structure Repaired (store : Store) (checkpoint : Checkpoint) (wal : Bytes) (disk : Disk StoreFile)
    (value : Option Checkpoint × Store) (after : Disk StoreFile) : Prop where
  loaded : value.1 = some (checkpoint.replay wal).state
  counters : value.2 = { store with
    sequence := (checkpoint.replay wal).state.sequence
    walBytes := wal.length - (checkpoint.replay wal).tail.length
    walRecords := (checkpoint.replay wal).records }
  log : after.content .wal = some (wal.take (wal.length - (checkpoint.replay wal).tail.length))
  others : ∀ name, name ≠ .wal → after name = disk name
  unchanged : (checkpoint.replay wal).tail = [] → after = disk

theorem loadWal_repairs (store : Store) (checkpoint : Checkpoint) (disk : Disk StoreFile) (wal : Bytes)
    (content : disk.content .wal = some wal) (readable : wal.length ≤ kMaxWalFileBytes) :
    (store.loadWal (some checkpoint) wal).Keeps (fun _ fault => fault = .none) (fun _ => True)
      (Repaired store checkpoint wal disk) disk := by
  obtain ⟨file, present, same⟩ := Option.map_eq_some_iff.mp content
  unfold Store.loadWal
  rw [if_neg (not_lt.mpr readable)]
  simp only
  split
  · rename_i whole
    refine ⟨rfl, ?_, ?_, fun _ _ => rfl, fun _ => rfl⟩
    · rw [whole, List.length_nil, Nat.sub_zero]
    · rw [whole, List.length_nil, Nat.sub_zero, List.take_length, content]
  · rename_i partly
    refine Prog.Keeps.bind (Store.truncateWalTo_keeps _ _ _ disk file (by rw [present]; rfl) trivial trivial trivial
      trivial (fun _ faulty => by contradiction) (fun _ faulty => by contradiction)
      (fun _ faulty => by contradiction) (fun _ faulty => by contradiction) ?_)
    refine ⟨rfl, rfl, ?_, ?_, ?_⟩
    · have cut : wal.length - (checkpoint.replay wal).tail.length ≤ file.content.length := by
        rw [same]
        omega
      rw [Disk.content_set_same, Option.map_some, Fs.File.content_synced, Fs.File.content_update,
        Fs.Update.resize_of_le cut, same]
    · exact fun name other => Disk.set_other _ _ other
    · exact fun whole => absurd whole partly

theorem load_repairs (store : Store) (checkpoint : Checkpoint) (disk : Disk StoreFile) (wal : Bytes)
    (ready : store.ready = true) (found : storedCheckpoint disk = some checkpoint)
    (content : disk.content .wal = some wal) (readable : wal.length ≤ kMaxWalFileBytes) :
    Repaired { store with generation := checkpoint.generation } checkpoint wal disk
      (store.load.exec (fun _ => .none) disk).1 (store.load.exec (fun _ => .none) disk).2 := by
  have keeps : store.load.Keeps (fun _ fault => fault = .none) (fun _ => True)
      (Repaired { store with generation := checkpoint.generation } checkpoint wal disk) disk := by
    apply Store.load_keeps store disk ready
    · intro none
      rw [found] at none
      contradiction
    · intro absent
      rw [content] at absent
      contradiction
    · intro other present
      rw [content] at present
      cases present
      rw [found]
      have repaired := loadWal_repairs (store.begun (some checkpoint)) checkpoint disk wal content readable
      exact repaired.mono fun value after facts =>
        ⟨facts.loaded, facts.counters, facts.log, facts.others, facts.unchanged⟩
  exact keeps.exec

theorem load_oversized (store : Store) (checkpoint : Checkpoint) (disk : Disk StoreFile) (wal : Bytes)
    (ready : store.ready = true) (found : storedCheckpoint disk = some checkpoint)
    (content : disk.content .wal = some wal) (large : kMaxWalFileBytes < wal.length) :
    let once := store.load.exec (fun _ => .none) disk
    once.1.1 = some checkpoint ∧ once.1.2.ready = false ∧ once.2 = disk := by
  have keeps : store.load.Keeps (fun _ fault => fault = .none) (fun _ => True) (fun value after =>
      value.1 = some checkpoint ∧ value.2.ready = false ∧ after = disk) disk := by
    apply Store.load_keeps store disk ready
    · intro none
      rw [found] at none
      contradiction
    · intro absent
      rw [content] at absent
      contradiction
    · intro other present
      rw [content] at present
      cases present
      rw [found, Store.loadWal, if_pos large]
      exact ⟨rfl, rfl, rfl⟩
  exact keeps.exec

theorem load_longest_valid_log (store : Store) (checkpoint : Checkpoint) (disk : Disk StoreFile) (wal : Bytes)
    (ready : store.ready = true) (found : storedCheckpoint disk = some checkpoint)
    (content : disk.content .wal = some wal) :
    let once := store.load.exec (fun _ => .none) disk
    (wal.length ≤ kMaxWalFileBytes → ∃ records tail final,
      wal = recordsBytes records ++ tail ∧ checkpoint.replayRecords records = some final ∧
      (∀ others other rest, (∀ record ∈ others, record.payload.length ≤ kMaxWalPayloadBytes) →
        checkpoint.replayRecords others = some other → wal = recordsBytes others ++ rest → others <+: records) ∧
      once.1 = (some final, { store with
        generation := checkpoint.generation
        sequence := final.sequence
        walBytes := (recordsBytes records).length
        walRecords := records.length }) ∧
      once.2.content .wal = some (recordsBytes records) ∧ (∀ name, name ≠ .wal → once.2 name = disk name) ∧
      once.1.2.load.exec (fun _ => .none) once.2 = once) ∧
    (kMaxWalFileBytes < wal.length →
      once.1.1 = some checkpoint ∧ once.1.2.ready = false ∧ once.2 = disk) := by
  intro once
  refine ⟨?_, load_oversized store checkpoint disk wal ready found content⟩
  intro readable
  obtain ⟨records, valid, fits, layout, count, stuck⟩ := replay_spec checkpoint wal
  have repaired := load_repairs store checkpoint disk wal ready found content readable
  have length : wal.length - (checkpoint.replay wal).tail.length = (recordsBytes records).length := by
    have lengths := congrArg List.length layout
    rw [List.length_append] at lengths
    omega
  have kept : wal.take (recordsBytes records).length = recordsBytes records := by
    conv_lhs => rw [layout]
    exact List.take_left
  have log := repaired.log
  rw [length, kept] at log
  have first : once.1 = (some (checkpoint.replay wal).state, { store with
      generation := checkpoint.generation
      sequence := (checkpoint.replay wal).state.sequence
      walBytes := (recordsBytes records).length
      walRecords := records.length }) := by
    refine Prod.ext repaired.loaded ?_
    rw [count, ← length]
    exact repaired.counters
  refine ⟨records, (checkpoint.replay wal).tail, (checkpoint.replay wal).state, layout, valid, ?_, first, log,
    repaired.others, ?_⟩
  · intro others other rest otherFits otherValid same
    exact replayRecords_maximal fits valid stuck otherFits otherValid (layout.symm.trans same)
  · -- The log that is left is valid to its end, so the second load writes nothing.
    have again := replay_recordsBytes fits valid (next_nil (checkpoint.replay wal).state)
    rw [List.append_nil] at again
    have shorter : (recordsBytes records).length ≤ kMaxWalFileBytes := by omega
    have sameFiles : storedCheckpoint once.2 = some checkpoint := by
      rw [← found]
      simp only [storedCheckpoint, Disk.content]
      rw [repaired.others .checkpointA (by decide), repaired.others .checkpointB (by decide)]
    have second := load_repairs once.1.2 checkpoint once.2 (recordsBytes records) (by rw [first]; exact ready)
      sameFiles log shorter
    refine Prod.ext (Prod.ext ?_ ?_) (second.unchanged (by rw [again]))
    · rw [second.loaded, again, first]
    · rw [second.counters, again, first]
      simp only [List.length_nil, Nat.sub_zero]

theorem length_encodePatchPayload_default : (encodePatchPayload {}).length = 68 := by
  simp [encodePatchPayload, encodeRuntime, encodeIndexed, encodeCounters, encodeI64, encodeU32, encodeU64,
    length_encodeGeo]

theorem patch_default_valid : ({} : DirtyPatch).Valid where
  runtime := RuntimeState.valid_default
  lifetimeGeo := ⟨List.nodup_nil, by simp⟩
  minutes := ⟨List.nodup_nil, by simp⟩
  days := ⟨List.nodup_nil, by simp⟩

theorem encodeImagePayload_default : encodeImagePayload {} = encodePatchPayload {} := by
  simp only [encodeImagePayload, encodePatchPayload, imageGeo_vacant, imageBuckets_vacant]

theorem inspected_of_decoded {bytes : Bytes} {checkpoint : Checkpoint}
    (readable : bytes.length ≤ kMaxCheckpointPayloadBytes + kCheckpointEnvelopeBytes)
    (decoded : decodeCheckpoint bytes = some checkpoint) : inspected (some bytes) = some checkpoint := by
  simp only [inspected, Option.filter_some, readable, decide_true, if_true, Option.bind_some, decoded]

theorem newest_of_first {first second : Option Bytes} {checkpoint : Checkpoint} (found : inspected first = some checkpoint)
    (missing : second = none) : newest (inspected first) (inspected second) = some checkpoint := by
  rw [found, missing]
  rfl

theorem length_checkpointBytes (image : PersistentImage) (generation sequence : UInt64)
    (fits : (encodeImagePayload image).length ≤ kMaxCheckpointPayloadBytes) :
    (checkpointBytes image generation sequence).length = kCheckpointEnvelopeBytes + (encodeImagePayload image).length := by
  have magic : kCheckpointMagic.length = 8 := rfl
  have envelope : kCheckpointEnvelopeBytes = 44 := rfl
  rw [checkpointBytes, if_neg (not_lt.mpr fits)]
  simp only [checkpointBody, List.length_append, encodeU32, encodeU64, length_leBytes, magic, envelope]
  omega

theorem inspected_checkpointBytes (image : PersistentImage) (generation sequence : UInt64) (valid : image.Valid)
    (fits : (encodeImagePayload image).length ≤ kMaxCheckpointPayloadBytes) (nonzero : generation ≠ 0) :
    inspected (some (checkpointBytes image generation sequence)) =
      some { generation, sequence, image := image.normalized } := by
  have length := length_checkpointBytes image generation sequence fits
  exact inspected_of_decoded (by omega) (decodeCheckpoint_checkpointBytes image generation sequence valid fits nonzero)

theorem inspected_default (generation sequence : UInt64) (nonzero : generation ≠ 0) :
    inspected (some (checkpointBytes {} generation sequence)) = some { generation, sequence, image := {} } := by
  have small : (encodeImagePayload {}).length = 68 := by
    rw [encodeImagePayload_default, length_encodePatchPayload_default]
  have fits : (encodeImagePayload {}).length ≤ kMaxCheckpointPayloadBytes := by
    rw [small]
    decide
  have normal : ({} : PersistentImage).Normal :=
    ⟨fun _ => BucketRecord.normal_default, fun _ => BucketRecord.normal_default⟩
  have read := inspected_checkpointBytes {} generation sequence PersistentImage.valid_default fits nonzero
  rwa [normal.normalized_eq] at read

-- One checkpoint of generation 1 without buckets, and a log.
def plainDisk (sequence : UInt64) (wal : Bytes) : Disk StoreFile
  | .checkpointA => some { stable := checkpointBytes {} 1 sequence }
  | .wal => some { stable := wal }
  | _ => none

theorem content_of_stable {disk : Disk StoreFile} {name : StoreFile} {bytes : Bytes} (there : disk name = some { stable := bytes }) :
    disk.content name = some bytes := by
  rw [Disk.content, there]
  rfl

theorem storedCheckpoint_plainDisk (sequence : UInt64) (wal : Bytes) :
    storedCheckpoint (plainDisk sequence wal) = some { generation := 1, sequence, image := {} } := by
  have first : (plainDisk sequence wal).content .checkpointA = some (checkpointBytes {} 1 sequence) := content_of_stable rfl
  have second : (plainDisk sequence wal).content .checkpointB = none := rfl
  rw [storedCheckpoint]
  apply newest_of_first _ second
  rw [first]
  exact inspected_default 1 sequence (by decide)

theorem plainDisk_wal (sequence : UInt64) (wal : Bytes) : (plainDisk sequence wal).content .wal = some wal :=
  content_of_stable rfl

def plainRecord (sequence : UInt64) : WalRecord :=
  { generation := 1, sequence, payload := encodePatchPayload {} }

theorem plainRecord_fits (sequence : UInt64) :
    (plainRecord sequence).payload.length ≤ kMaxWalPayloadBytes := by
  rw [plainRecord, length_encodePatchPayload_default]
  decide

theorem plainRecord_readable (sequence : UInt64) :
    (encodeRecord (plainRecord sequence)).length ≤ kMaxWalFileBytes := by
  rw [length_encodeRecord, plainRecord, length_encodePatchPayload_default]
  decide

theorem plainRecord_applies (sequence : UInt64) (image : PersistentImage) :
    (decodeAndApplyPatch (plainRecord sequence).payload image).1 = true := by
  have applied := decodeAndApplyPatch_encodePatchPayload image {} patch_default_valid
    (plainRecord_fits sequence)
  rw [plainRecord, applied]

theorem replay_torn_first :
    let best : Checkpoint := { generation := 1, sequence := 5, image := {} }
    best.replay (recordsBytes [] ++ (encodeRecord (plainRecord 6)).take 20) = ⟨best, (encodeRecord (plainRecord 6)).take 20, 0⟩ :=
  replay_torn (by simp) rfl (plainRecord_fits 6) (by rw [length_encodeRecord]; omega)

-- A whole record and the beginning of the next one.
def tornLog : Bytes := encodeRecord (plainRecord 6) ++ (encodeRecord (plainRecord 7)).take 20

theorem tornLog_readable : tornLog.length ≤ kMaxWalFileBytes := by
  have bound : 36 + 68 + 20 ≤ kMaxWalFileBytes := by decide
  rw [tornLog, List.length_append, length_encodeRecord, plainRecord, length_encodePatchPayload_default, List.length_take]
  omega

theorem replayRecords_plainRecord :
    ∃ after, ({ generation := 1, sequence := 5, image := {} } : Checkpoint).replayRecords [plainRecord 6] = some after := by
  let best : Checkpoint := { generation := 1, sequence := 5, image := {} }
  have applies := plainRecord_applies 6 best.image
  have same : ¬ (plainRecord 6).generation ≠ best.generation := not_not.mpr rfl
  have later : ¬ (plainRecord 6).sequence ≤ best.sequence := (by decide : ¬ (6 : UInt64) ≤ 5)
  have following : ¬ (plainRecord 6).sequence ≠ best.sequence + 1 := (by decide : ¬ (6 : UInt64) ≠ 5 + 1)
  have accepted : best.accept (plainRecord 6) = some { best with
      sequence := (plainRecord 6).sequence
      image := (decodeAndApplyPatch (plainRecord 6).payload best.image).2 } := by
    unfold Checkpoint.accept
    rw [if_neg same, if_neg later, if_neg following, if_pos applies]
  exact Option.isSome_iff_exists.mp (by simp [Checkpoint.replayRecords, best, accepted])

theorem load_longest_valid_log_torn :
    let once := (Store.opened {}).load.exec (fun _ => .none) (plainDisk 5 tornLog)
    once.2.content .wal = some (encodeRecord (plainRecord 6)) ∧
      once.1.2.load.exec (fun _ => .none) once.2 = once := by
  obtain ⟨records, tail, final, layout, -, maximal, -, log, -, again⟩ := (load_longest_valid_log (Store.opened {}) _ _
    tornLog rfl (storedCheckpoint_plainDisk 5 _) (plainDisk_wal 5 _)).1 tornLog_readable
  refine ⟨?_, again⟩
  obtain ⟨after, replayed⟩ := replayRecords_plainRecord
  have whole : tornLog = recordsBytes [plainRecord 6] ++ (encodeRecord (plainRecord 7)).take 20 := by
    simp only [tornLog, recordsBytes, List.flatMap_cons, List.flatMap_nil, List.append_nil]
  obtain ⟨rest, rfl⟩ := maximal [plainRecord 6] after _ (by simpa using plainRecord_fits 6) replayed whole
  rw [log]
  cases rest with
  | nil => simp only [recordsBytes, List.append_nil, List.flatMap_cons, List.flatMap_nil]
  | cons record more =>
    -- A second whole record would be longer than what is left.
    have lengths := congrArg List.length (whole.symm.trans layout)
    simp only [recordsBytes, List.flatMap_append, List.flatMap_cons, List.length_append, length_encodeRecord,
      List.length_take] at lengths
    omega

-- Records that follow each other without a gap, none of them covered by the checkpoint.
def Checkpoint.acceptConsecutive (best : Checkpoint) (record : WalRecord) : Option Checkpoint :=
  if record.sequence = best.sequence + 1 then best.accept record else none

theorem accept_fits {best after : Checkpoint} {record : WalRecord} (accepted : best.accept record = some after) :
    record.payload.length ≤ kMaxWalPayloadBytes := by
  have applied : (decodeAndApplyPatch record.payload best.image).1 = true := by
    unfold Checkpoint.accept at accepted
    by_contra refused
    simp only [refused, if_false, ite_self] at accepted
    contradiction
  unfold decodeAndApplyPatch at applied
  split at applied
  · contradiction
  · rename_i patch decoded
    unfold decodePayload at decoded
    split at decoded
    · contradiction
    · rename_i small
      omega

theorem load_longest_valid_log_covered_record :
    let wal := encodeRecord (plainRecord 5)
    let after := ((Store.opened {}).load.exec (fun _ => .none) (plainDisk 5 wal)).2
    ¬ ∃ records tail final, wal = recordsBytes records ++ tail ∧
      records.foldlM Checkpoint.acceptConsecutive { generation := 1, sequence := 5, image := {} } = some final ∧
      after.content .wal = some (recordsBytes records) := by
  intro wal after
  rintro ⟨records, tail, final, -, consecutive, content⟩
  let best : Checkpoint := { generation := 1, sequence := 5, image := {} }
  have kept : best.accept (plainRecord 5) = some best := by
    have applies := plainRecord_applies 5 best.image
    unfold Checkpoint.accept
    have covered : (plainRecord 5).sequence ≤ best.sequence := (by decide : (5 : UInt64) ≤ 5)
    have same : ¬ (plainRecord 5).generation ≠ best.generation := not_not.mpr rfl
    rw [if_neg same, if_pos covered, if_pos applies]
  have replayed : best.replay (recordsBytes [plainRecord 5] ++ []) = ⟨best, [], 1⟩ :=
    replay_recordsBytes (by simpa using plainRecord_fits 5)
      (Option.bind_eq_some_iff.mpr ⟨best, kept, rfl⟩) (next_nil best)
  have single : recordsBytes [plainRecord 5] ++ [] = wal := by
    simp only [recordsBytes, List.flatMap_cons, List.flatMap_nil, List.append_nil, wal]
  rw [single] at replayed
  have repaired := load_repairs (Store.opened {}) best (plainDisk 5 wal) wal rfl (storedCheckpoint_plainDisk 5 wal)
    (plainDisk_wal 5 wal) (plainRecord_readable 5)
  have log := repaired.log
  rw [replayed, List.length_nil, Nat.sub_zero, List.take_length] at log
  have same : recordsBytes records = encodeRecord (plainRecord 5) :=
    Option.some.inj (content.symm.trans log)
  cases records with
  | nil =>
    have length := congrArg List.length same
    rw [length_encodeRecord] at length
    simp [recordsBytes] at length
    omega
  | cons record rest =>
    obtain ⟨middle, accepted, -⟩ := Option.bind_eq_some_iff.mp consecutive
    unfold Checkpoint.acceptConsecutive at accepted
    split at accepted
    · rename_i following
      have whole : encodeRecord record ++ recordsBytes rest = encodeRecord (plainRecord 5) := same
      have first := decodeRecord_encodeRecord record (recordsBytes rest) (accept_fits accepted)
      have second := decodeRecord_encodeRecord (plainRecord 5) [] (plainRecord_fits 5)
      rw [List.append_nil, ← whole, first] at second
      obtain ⟨rfl, -⟩ := Prod.mk.inj (Option.some.inj second)
      have impossible : (5 : UInt64) = 5 + 1 := following
      exact absurd impossible (by decide)
    · exact absurd accepted (Option.some_ne_none middle).symm

end SubConverter.Statistics
