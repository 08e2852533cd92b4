import SubConverter.Lib.Wire
import SubConverter.Statistics.Core

set_option autoImplicit false

namespace SubConverter.Statistics

open Wire

def kMaxEncodedBucketBytes : Nat := 8 + 8 * 2 + 4 + kGeoCount * (2 + 8 * 2)
def kMaxPayloadBytes : Nat :=
  (kMinuteBucketCount + kDailyBucketCount) * (4 + kMaxEncodedBucketBytes) + kGeoCount * (2 + 8 * 2) + 256
def kMaxCheckpointPayloadBytes : Nat := 128 * 1024 * 1024
def kMaxWalPayloadBytes : Nat := 8 * 1024 * 1024
def kMaxWalFileBytes : Nat := 16 * 1024 * 1024
def kCheckpointEnvelopeBytes : Nat := 44
def kCheckpointMagic : Bytes := [83, 67, 83, 84, 65, 84, 50, 67]
def kWalMagic : Bytes := [83, 50, 87, 76]
def kSchemaVersion : UInt32 := 2
def kWalPatchType : UInt32 := 1

def encodeU16 (value : UInt16) : Bytes := leBytes 2 value.toNat
def encodeU32 (value : UInt32) : Bytes := leBytes 4 value.toNat
def encodeU64 (value : UInt64) : Bytes := leBytes 8 value.toNat
def encodeI64 (value : Int) : Bytes := leBytes 8 (value % 2 ^ 64).toNat

def decodeU16 : Decoder UInt16 := do
  let bytes ← take 2
  pure (UInt16.ofNat (leValue bytes))

def decodeU32 : Decoder UInt32 := do
  let bytes ← take 4
  pure (UInt32.ofNat (leValue bytes))

def decodeU64 : Decoder UInt64 := do
  let bytes ← take 8
  pure (UInt64.ofNat (leValue bytes))

def decodeI64 : Decoder Int := do
  let raw ← decodeU64
  pure (if raw.toNat < 2 ^ 63 then raw.toNat else (raw.toNat : Int) - 2 ^ 64)

def checksum (data : Bytes) : UInt64 :=
  data.foldl (fun hash byte => (hash ^^^ byte.toUInt64) * 1099511628211) 1469598103934665603

def encodeCounters (counters : Counters) : Bytes :=
  encodeU64 counters.subscriptionRequests ++ encodeU64 counters.ruleConversions

def decodeCounters : Decoder Counters := do
  let subscriptionRequests ← decodeU64
  let ruleConversions ← decodeU64
  pure { subscriptionRequests, ruleConversions }

def encodeRuntime (runtime : RuntimeState) : Bytes :=
  encodeI64 runtime.firstStartedAt ++ (encodeI64 runtime.persistedRuntimeSeconds ++
    (encodeI64 runtime.lastSeenAt ++ (encodeI64 runtime.lastStoppedAt ++ encodeU64 runtime.launchCount)))

def decodeRuntime : Decoder RuntimeState := do
  let firstStartedAt ← decodeI64
  let persistedRuntimeSeconds ← decodeI64
  let lastSeenAt ← decodeI64
  let lastStoppedAt ← decodeI64
  let launchCount ← decodeU64
  require (firstStartedAt ≥ 0 ∧ persistedRuntimeSeconds ≥ 0 ∧ lastSeenAt ≥ 0 ∧ lastStoppedAt ≥ 0)
  pure { firstStartedAt, persistedRuntimeSeconds, lastSeenAt, lastStoppedAt, launchCount }

def encodeGeo (entries : List GeoCounters) : Bytes :=
  encodeU32 (UInt32.ofNat entries.length) ++
    entries.flatMap fun entry => encodeU16 entry.id ++ encodeCounters entry.counters

def decodeGeoId : Decoder GeoId := do
  let id ← decodeU16
  require (id.toNat < kGeoCount)
  pure id

def decodeGeo : Decoder (List GeoCounters) := do
  let count ← decodeU32
  require (count.toNat ≤ kGeoCount)
  let entries ← distinct decodeGeoId (fun _ => decodeCounters) count.toNat []
  pure (entries.map fun entry => { id := entry.1, counters := entry.2 })

def encodeBucket (record : BucketRecord) : Bytes :=
  encodeI64 record.stamp ++ (encodeCounters record.counters ++ encodeGeo record.geo)

def decodeBucket : Decoder BucketRecord := do
  let stamp ← decodeI64
  let counters ← decodeCounters
  let geo ← decodeGeo
  pure (if counters.empty then { stamp := 0, counters, geo := [] }
    else { stamp, counters, geo := geo.filter fun entry => !entry.counters.empty })

def encodeIndexed (entries : List IndexedBucket) : Bytes :=
  encodeU32 (UInt32.ofNat entries.length) ++
    entries.flatMap fun entry => encodeU32 entry.index ++ encodeBucket entry.record

def decodeIndex (slots : Nat) : Decoder UInt32 := do
  let index ← decodeU32
  require (index.toNat < slots)
  pure index

def decodeSlot (slots : Nat) (index : UInt32) : Decoder BucketRecord := do
  let record ← decodeBucket
  require (record.empty = true ∨ ¬ (record.stamp ≤ 0 ∨ slotIndex slots record.stamp ≠ index.toNat))
  pure record

def decodeIndexed (slots : Nat) : Decoder (List IndexedBucket) := do
  let count ← decodeU32
  require (count.toNat ≤ slots)
  let entries ← distinct (decodeIndex slots) (decodeSlot slots) count.toNat []
  pure (entries.map fun entry => { index := entry.1, record := entry.2 })

def storeGeo (table : GeoTable) (entries : List GeoCounters) : GeoTable :=
  entries.foldl (fun table entry => table.set entry.id.toNat entry.counters) table

def storeBuckets {slots : Nat} (ring : Table slots BucketRecord) (entries : List IndexedBucket) :
    Table slots BucketRecord :=
  entries.foldl (fun ring entry => ring.set entry.index.toNat entry.record) ring

def imageGeo (table : GeoTable) : List GeoCounters :=
  ((List.finRange kGeoCount).filter fun i => !(table i).empty).map fun i =>
    { id := UInt16.ofNat i.val, counters := table i }

def imageBuckets {slots : Nat} (ring : Table slots BucketRecord) : List IndexedBucket :=
  ((List.finRange slots).filter fun i => !(ring i).empty).map fun i =>
    { index := UInt32.ofNat i.val, record := ring i }

def encodeImagePayload (image : PersistentImage) : Bytes :=
  encodeRuntime image.runtime ++ (encodeCounters image.lifetime ++ (encodeGeo (imageGeo image.lifetimeGeo) ++
    (encodeIndexed (imageBuckets image.minutes) ++ encodeIndexed (imageBuckets image.days))))

def encodePatchPayload (patch : DirtyPatch) : Bytes :=
  encodeRuntime patch.runtime ++ (encodeCounters patch.lifetime ++ (encodeGeo patch.lifetimeGeo ++
    (encodeIndexed patch.minutes ++ encodeIndexed patch.days)))

def decodeFields : Decoder DirtyPatch := do
  let runtime ← decodeRuntime
  let lifetime ← decodeCounters
  let lifetimeGeo ← decodeGeo
  let minutes ← decodeIndexed kMinuteBucketCount
  let days ← decodeIndexed kDailyBucketCount
  pure { runtime, lifetime, lifetimeGeo, minutes, days }

def decodePayload (limit : Nat) (data : Bytes) : Option DirtyPatch :=
  if data.length > limit ∨ data.length > kMaxPayloadBytes then none
  else match decodeFields.run data with
    | some (fields, []) => some fields
    | _ => none

def applyPatch (image : PersistentImage) (patch : DirtyPatch) : PersistentImage where
  runtime := patch.runtime
  lifetime := patch.lifetime
  lifetimeGeo := storeGeo image.lifetimeGeo patch.lifetimeGeo
  minutes := storeBuckets image.minutes patch.minutes
  days := storeBuckets image.days patch.days

def decodeImagePayload (data : Bytes) : Option PersistentImage :=
  (decodePayload kMaxCheckpointPayloadBytes data).map (applyPatch {})

def decodeAndApplyPatch (data : Bytes) (image : PersistentImage) : Bool × PersistentImage :=
  match decodePayload kMaxWalPayloadBytes data with
  | none => (false, image)
  | some patch => (true, applyPatch image patch)

structure Checkpoint where
  generation : UInt64
  sequence : UInt64
  image : PersistentImage

def checkpointBody (image : PersistentImage) (generation sequence : UInt64) : Bytes :=
  kCheckpointMagic ++ (encodeU32 kSchemaVersion ++ (encodeU64 generation ++ (encodeU64 sequence ++
    (encodeU64 (UInt64.ofNat (encodeImagePayload image).length) ++ encodeImagePayload image))))

def checkpointBytes (image : PersistentImage) (generation sequence : UInt64) : Bytes :=
  if (encodeImagePayload image).length > kMaxCheckpointPayloadBytes then []
  else checkpointBody image generation sequence ++
    encodeU64 (checksum (checkpointBody image generation sequence))

def decodeEnvelope : Decoder (UInt64 × UInt64 × Bytes × UInt64) := do
  let magic ← take 8
  require (magic = kCheckpointMagic)
  let schema ← decodeU32
  require (schema = kSchemaVersion)
  let generation ← decodeU64
  let sequence ← decodeU64
  require (generation ≠ 0)
  let payloadSize ← decodeU64
  let left ← remaining
  require (payloadSize.toNat ≤ kMaxCheckpointPayloadBytes ∧ payloadSize.toNat ≤ kMaxPayloadBytes ∧
    payloadSize.toNat ≤ left - 8)
  let payload ← take payloadSize.toNat
  let storedChecksum ← decodeU64
  pure (generation, sequence, payload, storedChecksum)

def decodeCheckpoint (bytes : Bytes) : Option Checkpoint :=
  if bytes.length < kCheckpointEnvelopeBytes then none
  else match decodeEnvelope.run bytes with
    | some ((generation, sequence, payload, storedChecksum), []) =>
      if storedChecksum ≠ checksum (bytes.take (bytes.length - 8)) then none
      else (decodeImagePayload payload).map fun image => { generation, sequence, image }
    | _ => none

end SubConverter.Statistics
