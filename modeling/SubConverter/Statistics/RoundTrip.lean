import SubConverter.Statistics.Codec
import SubConverter.Statistics.Windows

set_option autoImplicit false

namespace SubConverter.Statistics

open Wire

structure RuntimeState.Valid (runtime : RuntimeState) : Prop where
  firstStartedAt : 0 ≤ runtime.firstStartedAt ∧ runtime.firstStartedAt < 2 ^ 63
  persistedRuntimeSeconds : 0 ≤ runtime.persistedRuntimeSeconds ∧ runtime.persistedRuntimeSeconds < 2 ^ 63
  lastSeenAt : 0 ≤ runtime.lastSeenAt ∧ runtime.lastSeenAt < 2 ^ 63
  lastStoppedAt : 0 ≤ runtime.lastStoppedAt ∧ runtime.lastStoppedAt < 2 ^ 63

def GeoValid (entries : List GeoCounters) : Prop :=
  (entries.map GeoCounters.id).Nodup ∧ ∀ entry ∈ entries, entry.id.toNat < kGeoCount

-- Every bucket has an `int64_t` stamp and a proper geo list; one that counted something sits in the
-- slot of its stamp.
structure SlotValid (slots index : Nat) (record : BucketRecord) : Prop where
  low : -2 ^ 63 ≤ record.stamp
  high : record.stamp < 2 ^ 63
  geo : GeoValid record.geo
  placed : record.empty = false → 0 < record.stamp ∧ slotIndex slots record.stamp = index

def IndexedValid (slots : Nat) (entries : List IndexedBucket) : Prop :=
  (entries.map IndexedBucket.index).Nodup ∧
    ∀ entry ∈ entries, entry.index.toNat < slots ∧ SlotValid slots entry.index.toNat entry.record

structure DirtyPatch.Valid (patch : DirtyPatch) : Prop where
  runtime : patch.runtime.Valid
  lifetimeGeo : GeoValid patch.lifetimeGeo
  minutes : IndexedValid kMinuteBucketCount patch.minutes
  days : IndexedValid kDailyBucketCount patch.days

structure PersistentImage.Valid (image : PersistentImage) : Prop where
  runtime : image.runtime.Valid
  minutes : ∀ i, SlotValid kMinuteBucketCount i.val (image.minutes i)
  days : ∀ i, SlotValid kDailyBucketCount i.val (image.days i)

/-- The bucket `decodeBucket` makes of an encoded one: a bucket without counts is the vacant bucket,
and geo entries without counts are dropped. -/
def BucketRecord.normalized (record : BucketRecord) : BucketRecord :=
  if record.empty then {} else { record with geo := record.geo.filter fun entry => !entry.counters.empty }

def BucketRecord.Normal (record : BucketRecord) : Prop := record.normalized = record

def IndexedBucket.normalized (entry : IndexedBucket) : IndexedBucket :=
  { entry with record := entry.record.normalized }

def DirtyPatch.normalized (patch : DirtyPatch) : DirtyPatch :=
  { patch with
    minutes := patch.minutes.map IndexedBucket.normalized
    days := patch.days.map IndexedBucket.normalized }

def PersistentImage.normalized (image : PersistentImage) : PersistentImage :=
  { image with
    lifetimeGeo := fun i => if (image.lifetimeGeo i).empty then {} else image.lifetimeGeo i
    minutes := fun i => (image.minutes i).normalized
    days := fun i => (image.days i).normalized }

def PersistentImage.Normal (image : PersistentImage) : Prop :=
  (∀ i, (image.minutes i).Normal) ∧ ∀ i, (image.days i).Normal

def DirtyPatch.Normal (patch : DirtyPatch) : Prop :=
  (∀ entry ∈ patch.minutes, entry.record.Normal) ∧ ∀ entry ∈ patch.days, entry.record.Normal

theorem empty_eq_default {counters : Counters} (vacant : counters.empty = true) : counters = {} := by
  simp only [Counters.empty, Bool.and_eq_true, beq_iff_eq] at vacant
  cases counters
  simp_all

theorem BucketRecord.normal_default : ({} : BucketRecord).Normal := rfl

theorem BucketRecord.normalized_empty (record : BucketRecord) : record.normalized.empty = record.empty := by
  unfold normalized
  split
  · rename_i vacant
    exact vacant.symm
  · rfl

theorem BucketRecord.normal_iff (record : BucketRecord) : record.Normal ↔
    (record.empty = true → record = {}) ∧
      (record.empty = false → ∀ entry ∈ record.geo, entry.counters.empty = false) := by
  unfold Normal normalized
  cases vacant : record.empty with
  | true =>
    simp only [if_true, forall_const, Bool.true_eq_false, false_implies, and_true]
    exact eq_comm
  | false =>
    simp only [Bool.false_eq_true, if_false, false_implies, true_and, forall_const]
    rw [BucketRecord.mk.injEq]
    simp [List.filter_eq_self]

theorem PersistentImage.Normal.normalized_eq {image : PersistentImage} (normal : image.Normal) :
    image.normalized = image := by
  have geo : (fun i => if (image.lifetimeGeo i).empty then {} else image.lifetimeGeo i) =
      image.lifetimeGeo := by
    funext i
    split
    · rename_i vacant
      exact (empty_eq_default vacant).symm
    · rfl
  unfold normalized
  rw [geo, funext normal.1, funext normal.2]

theorem normalized_eq_self {entries : List IndexedBucket} (normal : ∀ entry ∈ entries, entry.record.Normal) :
    entries.map IndexedBucket.normalized = entries := by
  refine List.map_congr_left (fun entry member => ?_) |>.trans (List.map_id entries)
  rw [IndexedBucket.normalized, normal entry member]
  rfl

theorem DirtyPatch.Normal.normalized_eq {patch : DirtyPatch} (normal : patch.Normal) :
    patch.normalized = patch := by
  rw [DirtyPatch.normalized, normalized_eq_self normal.1, normalized_eq_self normal.2]

theorem reads_leBytes (width value : Nat) : Reads (take width) (leBytes width value) (leBytes width value) := by
  have h := reads_take (leBytes width value)
  rwa [length_leBytes] at h

theorem reads_u16 (value : UInt16) : Reads decodeU16 (encodeU16 value) value := by
  have h := Reads.map (fun bytes => UInt16.ofNat (leValue bytes)) (reads_leBytes 2 value.toNat)
  rw [leValue_leBytes 2 _ value.toNat_lt, UInt16.ofNat_toNat] at h
  exact h

theorem reads_u32 (value : UInt32) : Reads decodeU32 (encodeU32 value) value := by
  have h := Reads.map (fun bytes => UInt32.ofNat (leValue bytes)) (reads_leBytes 4 value.toNat)
  rw [leValue_leBytes 4 _ value.toNat_lt, UInt32.ofNat_toNat] at h
  exact h

theorem reads_u64 (value : UInt64) : Reads decodeU64 (encodeU64 value) value := by
  have h := Reads.map (fun bytes => UInt64.ofNat (leValue bytes)) (reads_leBytes 8 value.toNat)
  rw [leValue_leBytes 8 _ value.toNat_lt, UInt64.ofNat_toNat] at h
  exact h

theorem reads_i64 (value : Int) (low : -2 ^ 63 ≤ value) (high : value < 2 ^ 63) :
    Reads decodeI64 (encodeI64 value) value := by
  have back : (UInt64.ofNat (value % 2 ^ 64).toNat).toNat = (value % 2 ^ 64).toNat := by
    rw [UInt64.toNat_ofNat']
    omega
  have h := Reads.map (fun raw : UInt64 => if raw.toNat < 2 ^ 63 then (raw.toNat : Int)
    else (raw.toNat : Int) - 2 ^ 64) (reads_u64 (UInt64.ofNat (value % 2 ^ 64).toNat))
  rw [encodeU64, back] at h
  have signed : (if (value % 2 ^ 64).toNat < 2 ^ 63 then ((value % 2 ^ 64).toNat : Int)
      else ((value % 2 ^ 64).toNat : Int) - 2 ^ 64) = value := by
    split <;> omega
  rw [signed] at h
  exact h

theorem reads_counters (counters : Counters) : Reads decodeCounters (encodeCounters counters) counters :=
  Reads.bind (reads_u64 _) (Reads.map _ (reads_u64 _))

theorem reads_runtime (runtime : RuntimeState) (valid : runtime.Valid) :
    Reads decodeRuntime (encodeRuntime runtime) runtime := by
  obtain ⟨⟨low1, high1⟩, ⟨low2, high2⟩, ⟨low3, high3⟩, ⟨low4, high4⟩⟩ := valid
  have h : Reads decodeRuntime (encodeI64 runtime.firstStartedAt ++
      (encodeI64 runtime.persistedRuntimeSeconds ++ (encodeI64 runtime.lastSeenAt ++
        (encodeI64 runtime.lastStoppedAt ++ (encodeU64 runtime.launchCount ++ ([] ++ [])))))) runtime :=
    Reads.bind (reads_i64 _ (by omega) high1) (Reads.bind (reads_i64 _ (by omega) high2)
      (Reads.bind (reads_i64 _ (by omega) high3) (Reads.bind (reads_i64 _ (by omega) high4)
        (Reads.bind (reads_u64 _) (Reads.bind (Reads.require ⟨low1, low2, low3, low4⟩) (Reads.pure _))))))
  simpa [encodeRuntime] using h

theorem reads_counted {σ κ α : Type} [DecidableEq κ] (key : Decoder κ) (body : κ → Decoder α)
    (encodeKey : κ → Bytes) (encodeBody : σ → Bytes) (keyOf : σ → κ) (valueOf : σ → α) (code : κ → Nat)
    (limit : Nat) (sources : List σ) (injective : Function.Injective code) (small : limit < 2 ^ 32)
    (bound : ∀ source ∈ sources, code (keyOf source) < limit)
    (readsKey : ∀ source ∈ sources, Reads key (encodeKey (keyOf source)) (keyOf source))
    (readsBody : ∀ source ∈ sources, Reads (body (keyOf source)) (encodeBody source) (valueOf source))
    (nodup : (sources.map keyOf).Nodup) :
    Reads (decodeU32 >>= fun count => require (count.toNat ≤ limit) >>= fun _ =>
        distinct key body count.toNat [])
      (encodeU32 (UInt32.ofNat sources.length) ++
        sources.flatMap fun source => encodeKey (keyOf source) ++ encodeBody source)
      (sources.map fun source => (keyOf source, valueOf source)) := by
  have short : sources.length ≤ limit := by
    have codes : ((sources.map keyOf).map code).Nodup := nodup.map injective
    have inside : ((sources.map keyOf).map code).toFinset ⊆ Finset.range limit := by
      intro n member
      simp only [List.mem_toFinset, List.mem_map] at member
      obtain ⟨k, ⟨source, present, rfl⟩, rfl⟩ := member
      exact Finset.mem_range.mpr (bound source present)
    have card := Finset.card_le_card inside
    rw [List.toFinset_card_of_nodup codes, Finset.card_range] at card
    simpa using card
  have count : (UInt32.ofNat sources.length).toNat = sources.length := by
    rw [UInt32.toNat_ofNat']
    omega
  have list := reads_distinct key body encodeKey encodeBody keyOf valueOf sources [] readsKey readsBody
    nodup (by simp)
  rw [← count] at list
  have within : (UInt32.ofNat sources.length).toNat ≤ limit := by omega
  exact Reads.bind (reads_u32 _) (Reads.bind (Reads.require within) list)

theorem decodeGeo_eq : decodeGeo =
    ((decodeU32 >>= fun count => require (count.toNat ≤ kGeoCount) >>= fun _ =>
        distinct decodeGeoId (fun _ => decodeCounters) count.toNat []) >>= fun entries =>
      pure (entries.map fun entry => { id := entry.1, counters := entry.2 })) := by
  simp only [decodeGeo, bind_assoc]

theorem reads_geoId {id : GeoId} (inside : id.toNat < kGeoCount) :
    Reads decodeGeoId (encodeU16 id) id := by
  have h : Reads decodeGeoId (encodeU16 id ++ ([] ++ [])) id :=
    Reads.bind (reads_u16 _) (Reads.bind (Reads.require inside) (Reads.pure _))
  simpa using h

theorem reads_geo (entries : List GeoCounters) (valid : GeoValid entries) :
    Reads decodeGeo (encodeGeo entries) entries := by
  have readsKey : ∀ entry ∈ entries, Reads decodeGeoId (encodeU16 entry.id) entry.id := by
    intro entry member
    exact reads_geoId (valid.2 entry member)
  have readsBody : ∀ entry ∈ entries,
      Reads decodeCounters (encodeCounters entry.counters) entry.counters := by
    intro entry _
    exact reads_counters entry.counters
  have list := reads_counted decodeGeoId (fun _ => decodeCounters) encodeU16
    (fun entry : GeoCounters => encodeCounters entry.counters) GeoCounters.id GeoCounters.counters UInt16.toNat kGeoCount
    entries (fun _ _ => UInt16.toNat_inj.mp) (by decide) valid.2 readsKey readsBody valid.1
  have h := Reads.map (fun pairs : List (GeoId × Counters) =>
    pairs.map fun entry => ({ id := entry.1, counters := entry.2 } : GeoCounters)) list
  rw [← decodeGeo_eq] at h
  simpa [encodeGeo, Function.comp_def] using h

theorem reads_bucket (record : BucketRecord) (low : -2 ^ 63 ≤ record.stamp) (high : record.stamp < 2 ^ 63)
    (geo : GeoValid record.geo) : Reads decodeBucket (encodeBucket record) record.normalized := by
  let finish (geo : List GeoCounters) : BucketRecord :=
    if record.counters.empty then { stamp := 0, counters := record.counters, geo := [] }
    else { stamp := record.stamp, counters := record.counters,
           geo := geo.filter fun entry => !entry.counters.empty }
  have value : record.normalized = finish record.geo := by
    by_cases vacant : record.counters.empty = true
    · have plain : record.normalized = {} := if_pos vacant
      have blank : finish record.geo = { stamp := 0, counters := record.counters, geo := [] } := if_pos vacant
      rw [plain, blank, empty_eq_default vacant]
    · exact (if_neg vacant).trans (if_neg vacant).symm
  rw [value]
  exact Reads.bind (reads_i64 record.stamp low high)
    (Reads.bind (reads_counters record.counters) (Reads.map finish (reads_geo record.geo geo)))

theorem decodeIndexed_eq (slots : Nat) : decodeIndexed slots =
    ((decodeU32 >>= fun count => require (count.toNat ≤ slots) >>= fun _ =>
        distinct (decodeIndex slots) (decodeSlot slots) count.toNat []) >>= fun entries =>
      pure (entries.map fun entry => { index := entry.1, record := entry.2 })) := by
  simp only [decodeIndexed, bind_assoc]

theorem reads_slot {slots : Nat} {index : UInt32} {record : BucketRecord}
    (valid : SlotValid slots index.toNat record) :
    Reads (decodeSlot slots index) (encodeBucket record) record.normalized := by
  have accepted : record.normalized.empty = true ∨
      ¬ (record.normalized.stamp ≤ 0 ∨ slotIndex slots record.normalized.stamp ≠ index.toNat) := by
    cases vacant : record.empty with
    | true => exact .inl (by rw [BucketRecord.normalized_empty, vacant])
    | false =>
      obtain ⟨positive, placed⟩ := valid.placed vacant
      refine .inr ?_
      simp only [BucketRecord.normalized, vacant, Bool.false_eq_true, if_false, placed]
      omega
  have h : Reads (decodeSlot slots index) (encodeBucket record ++ ([] ++ [])) record.normalized :=
    Reads.bind (reads_bucket record valid.low valid.high valid.geo)
      (Reads.bind (Reads.require accepted) (Reads.pure _))
  simpa using h

theorem reads_index {slots : Nat} {index : UInt32} (inside : index.toNat < slots) :
    Reads (decodeIndex slots) (encodeU32 index) index := by
  have h : Reads (decodeIndex slots) (encodeU32 index ++ ([] ++ [])) index :=
    Reads.bind (reads_u32 _) (Reads.bind (Reads.require inside) (Reads.pure _))
  simpa using h

theorem reads_indexed (slots : Nat) (small : slots < 2 ^ 32) (entries : List IndexedBucket)
    (valid : IndexedValid slots entries) :
    Reads (decodeIndexed slots) (encodeIndexed entries) (entries.map IndexedBucket.normalized) := by
  have bound : ∀ entry ∈ entries, entry.index.toNat < slots := by
    intro entry member
    exact (valid.2 entry member).1
  have readsKey : ∀ entry ∈ entries, Reads (decodeIndex slots) (encodeU32 entry.index) entry.index := by
    intro entry member
    exact reads_index (bound entry member)
  have readsBody : ∀ entry ∈ entries,
      Reads (decodeSlot slots entry.index) (encodeBucket entry.record) entry.record.normalized := by
    intro entry member
    exact reads_slot (valid.2 entry member).2
  have list := reads_counted (decodeIndex slots) (decodeSlot slots) encodeU32
    (fun entry : IndexedBucket => encodeBucket entry.record) IndexedBucket.index (fun entry => entry.record.normalized)
    UInt32.toNat slots entries (fun _ _ => UInt32.toNat_inj.mp) small bound readsKey readsBody valid.1
  have h := Reads.map (fun pairs : List (UInt32 × BucketRecord) =>
    pairs.map fun entry => ({ index := entry.1, record := entry.2 } : IndexedBucket)) list
  rw [← decodeIndexed_eq] at h
  have shape : (fun entry : IndexedBucket =>
      ({ index := entry.index, record := entry.record.normalized } : IndexedBucket)) =
      IndexedBucket.normalized := rfl
  simpa [encodeIndexed, Function.comp_def, shape] using h

-- The patch `decodeFields` returns for an encoded patch.
def DirtyPatch.decoded (patch : DirtyPatch) : DirtyPatch := { patch.normalized with metadataPresent := false }

theorem reads_fields (patch : DirtyPatch) (valid : patch.Valid) :
    Reads decodeFields (encodePatchPayload patch) patch.decoded :=
  Reads.bind (reads_runtime _ valid.runtime) (Reads.bind (reads_counters _)
    (Reads.bind (reads_geo _ valid.lifetimeGeo)
      (Reads.bind (reads_indexed _ (by decide) _ valid.minutes)
        (Reads.map _ (reads_indexed _ (by decide) _ valid.days)))))

theorem decodePayload_encodePatchPayload (limit : Nat) (patch : DirtyPatch) (valid : patch.Valid)
    (fits : (encodePatchPayload patch).length ≤ limit) (small : limit ≤ kMaxPayloadBytes) :
    decodePayload limit (encodePatchPayload patch) = some patch.decoded := by
  have ran := reads_fields patch valid []
  rw [List.append_nil] at ran
  unfold decodePayload
  rw [if_neg (by omega), ran]

theorem u32_roundtrip {value : Nat} (small : value < 2 ^ 32) : (UInt32.ofNat value).toNat = value := by
  rw [UInt32.toNat_ofNat']
  omega

def PersistentImage.patch (image : PersistentImage) : DirtyPatch where
  runtime := image.runtime
  lifetime := image.lifetime
  lifetimeGeo := imageGeo image.lifetimeGeo
  minutes := imageBuckets image.minutes
  days := imageBuckets image.days

theorem encodeImagePayload_eq (image : PersistentImage) :
    encodeImagePayload image = encodePatchPayload image.patch := by
  simp only [encodeImagePayload, encodePatchPayload, PersistentImage.patch]

theorem imageGeo_nodup (table : GeoTable) : ((imageGeo table).map GeoCounters.id).Nodup := by
  unfold imageGeo
  rw [List.map_map]
  apply List.Nodup.map_on
  · intro a _ b _ same
    have codes := congrArg UInt16.toNat same
    simp only [Function.comp_apply, geoId_roundtrip] at codes
    exact Fin.ext codes
  · exact (List.nodup_finRange _).filter _

theorem imageGeo_inside (table : GeoTable) : ∀ entry ∈ imageGeo table, entry.id.toNat < kGeoCount := by
  intro entry member
  obtain ⟨i, -, rfl⟩ := List.mem_map.mp member
  rw [geoId_roundtrip]
  exact i.isLt

theorem imageGeo_valid (table : GeoTable) : GeoValid (imageGeo table) :=
  ⟨imageGeo_nodup table, imageGeo_inside table⟩

theorem imageBuckets_nodup {slots : Nat} (small : slots < 2 ^ 32) (ring : Table slots BucketRecord) :
    ((imageBuckets ring).map IndexedBucket.index).Nodup := by
  unfold imageBuckets
  rw [List.map_map]
  apply List.Nodup.map_on
  · intro a _ b _ same
    have codes := congrArg UInt32.toNat same
    have first := a.isLt
    have second := b.isLt
    simp only [Function.comp_apply] at codes
    rw [u32_roundtrip (by omega), u32_roundtrip (by omega)] at codes
    exact Fin.ext codes
  · exact (List.nodup_finRange _).filter _

theorem imageBuckets_valid {slots : Nat} (small : slots < 2 ^ 32) (ring : Table slots BucketRecord)
    (valid : ∀ i, SlotValid slots i.val (ring i)) : IndexedValid slots (imageBuckets ring) := by
  refine ⟨imageBuckets_nodup small ring, ?_⟩
  intro entry member
  obtain ⟨i, -, rfl⟩ := List.mem_map.mp member
  have inside := i.isLt
  simp only
  rw [u32_roundtrip (by omega)]
  exact ⟨inside, valid i⟩

theorem PersistentImage.patch_valid (image : PersistentImage) (valid : image.Valid) : image.patch.Valid where
  runtime := valid.runtime
  lifetimeGeo := by
    simp only [PersistentImage.patch]
    exact imageGeo_valid image.lifetimeGeo
  minutes := by
    simp only [PersistentImage.patch]
    exact imageBuckets_valid (by decide) image.minutes valid.minutes
  days := by
    simp only [PersistentImage.patch]
    exact imageBuckets_valid (by decide) image.days valid.days

theorem storeGeo_imageGeo (table : GeoTable) (i : Fin kGeoCount) :
    storeGeo (fun _ => {}) (imageGeo table) i = if (table i).empty then {} else table i := by
  have keys : ((imageGeo table).map fun entry => entry.id.toNat).Nodup := by
    have h := (imageGeo_valid table).1.map (f := UInt16.toNat) fun _ _ => UInt16.toNat_inj.mp
    rwa [List.map_map] at h
  unfold storeGeo
  by_cases vacant : (table i).empty
  · rw [Table.foldl_set_other (fun entry : GeoCounters => entry.id.toNat) GeoCounters.counters, if_pos vacant]
    intro entry member
    obtain ⟨j, present, rfl⟩ := List.mem_map.mp member
    simp only [List.mem_filter, Bool.not_eq_true'] at present
    rw [geoId_roundtrip]
    intro same
    rw [Fin.ext same, vacant] at present
    exact Bool.noConfusion present.2
  · rw [Table.foldl_set_member (fun entry : GeoCounters => entry.id.toNat) GeoCounters.counters _ _ i
      { id := UInt16.ofNat i.val, counters := table i } keys ?_ (geoId_roundtrip i), if_neg vacant]
    exact List.mem_map.mpr ⟨i, by simpa using vacant, rfl⟩

theorem storeBuckets_other {slots : Nat} (ring : Table slots BucketRecord) (entries : List IndexedBucket)
    (i : Fin slots) (other : ∀ entry ∈ entries, entry.index.toNat ≠ i.val) :
    storeBuckets ring entries i = ring i :=
  Table.foldl_set_other (fun entry : IndexedBucket => entry.index.toNat) IndexedBucket.record entries ring i
    other

theorem storeBuckets_member {slots : Nat} (ring : Table slots BucketRecord) (entries : List IndexedBucket)
    (i : Fin slots) (entry : IndexedBucket) (nodup : (entries.map IndexedBucket.index).Nodup)
    (member : entry ∈ entries) (here : entry.index.toNat = i.val) :
    storeBuckets ring entries i = entry.record := by
  have keys : (entries.map fun entry => entry.index.toNat).Nodup := by
    have h := nodup.map (f := UInt32.toNat) fun _ _ => UInt32.toNat_inj.mp
    rwa [List.map_map] at h
  exact Table.foldl_set_member (fun entry : IndexedBucket => entry.index.toNat) IndexedBucket.record entries
    ring i entry keys member here

theorem normalized_index (entries : List IndexedBucket) :
    (entries.map IndexedBucket.normalized).map IndexedBucket.index = entries.map IndexedBucket.index := by
  rw [List.map_map]
  rfl

theorem storeBuckets_imageBuckets {slots : Nat} (small : slots < 2 ^ 32) (ring : Table slots BucketRecord)
    (i : Fin slots) :
    storeBuckets (fun _ => {}) ((imageBuckets ring).map IndexedBucket.normalized) i = (ring i).normalized := by
  have bound := i.isLt
  cases vacant : (ring i).empty with
  | true =>
    have blank : (ring i).normalized = {} := if_pos vacant
    rw [storeBuckets_other, blank]
    intro entry member
    obtain ⟨source, listed, rfl⟩ := List.mem_map.mp member
    obtain ⟨j, present, rfl⟩ := List.mem_map.mp listed
    have inside := j.isLt
    change (UInt32.ofNat j.val).toNat ≠ i.val
    rw [u32_roundtrip (by omega)]
    intro same
    rw [Fin.ext same] at present
    simp [vacant] at present
  | false =>
    have listed : ({ index := UInt32.ofNat i.val, record := ring i } : IndexedBucket) ∈ imageBuckets ring :=
      List.mem_map.mpr ⟨i, by simp [vacant], rfl⟩
    refine storeBuckets_member _ _ i _ ?_ (List.mem_map_of_mem listed) (u32_roundtrip (by omega))
    rw [normalized_index]
    exact imageBuckets_nodup small ring

theorem decodeImagePayload_encodeImagePayload (image : PersistentImage) (valid : image.Valid)
    (fits : (encodeImagePayload image).length ≤ kMaxCheckpointPayloadBytes) :
    decodeImagePayload (encodeImagePayload image) = some image.normalized := by
  have decoded := decodePayload_encodePatchPayload kMaxCheckpointPayloadBytes image.patch
    (image.patch_valid valid) (by rw [← encodeImagePayload_eq]; exact fits) (by decide)
  rw [← encodeImagePayload_eq] at decoded
  have geo := funext (storeGeo_imageGeo image.lifetimeGeo)
  have minutes := funext (storeBuckets_imageBuckets (by decide) image.minutes)
  have days := funext (storeBuckets_imageBuckets (by decide) image.days)
  rw [decodeImagePayload, decoded, Option.map_some]
  simp only [applyPatch, DirtyPatch.decoded, DirtyPatch.normalized, PersistentImage.patch,
    PersistentImage.normalized]
  rw [geo, minutes, days]

theorem run_decodeEnvelope (generation sequence storedChecksum : UInt64) (payload : Bytes)
    (nonzero : generation ≠ 0) (fits : payload.length ≤ kMaxCheckpointPayloadBytes) :
    decodeEnvelope.run (kCheckpointMagic ++ (encodeU32 kSchemaVersion ++ (encodeU64 generation ++
      (encodeU64 sequence ++ (encodeU64 (UInt64.ofNat payload.length) ++ (payload ++
        encodeU64 storedChecksum)))))) = some ((generation, sequence, payload, storedChecksum), []) := by
  have limit : kMaxCheckpointPayloadBytes = 134217728 := by decide
  have larger : kMaxCheckpointPayloadBytes ≤ kMaxPayloadBytes := by decide
  have size : (UInt64.ofNat payload.length).toNat = payload.length := by
    rw [UInt64.toNat_ofNat']
    omega
  have tail : (encodeU64 storedChecksum).length = 8 := length_leBytes 8 _
  have magic : Reads (take 8) kCheckpointMagic kCheckpointMagic := reads_take kCheckpointMagic
  have body : Reads (take (UInt64.ofNat payload.length).toNat) payload payload := by
    rw [size]
    exact reads_take payload
  have room : (UInt64.ofNat payload.length).toNat ≤ kMaxCheckpointPayloadBytes ∧
      (UInt64.ofNat payload.length).toNat ≤ kMaxPayloadBytes ∧
      (UInt64.ofNat payload.length).toNat ≤ (payload ++ encodeU64 storedChecksum).length - 8 := by
    rw [List.length_append, tail, size]
    omega
  have final := Reads.map (fun stored : UInt64 => (generation, sequence, payload, stored))
    (reads_u64 storedChecksum) []
  rw [List.append_nil] at final
  unfold decodeEnvelope
  rw [magic.run_bind, run_require_bind rfl, (reads_u32 _).run_bind, run_require_bind rfl,
    (reads_u64 _).run_bind, (reads_u64 _).run_bind, run_require_bind nonzero, (reads_u64 _).run_bind,
    run_remaining_bind, run_require_bind room, body.run_bind]
  exact final

theorem decodeCheckpoint_checkpointBytes (image : PersistentImage) (generation sequence : UInt64)
    (valid : image.Valid) (fits : (encodeImagePayload image).length ≤ kMaxCheckpointPayloadBytes)
    (nonzero : generation ≠ 0) :
    decodeCheckpoint (checkpointBytes image generation sequence) =
      some { generation, sequence, image := image.normalized } := by
  let body := checkpointBody image generation sequence
  have bytes : checkpointBytes image generation sequence = body ++ encodeU64 (checksum body) :=
    if_neg (by omega)
  have tail : (encodeU64 (checksum body)).length = 8 := length_leBytes 8 _
  have header : body.length = 36 + (encodeImagePayload image).length := by
    simp only [body, checkpointBody, List.length_append, encodeU32, encodeU64, length_leBytes]
    have magic : kCheckpointMagic.length = 8 := rfl
    omega
  have envelope := run_decodeEnvelope generation sequence (checksum body) (encodeImagePayload image)
    nonzero fits
  have layout : body ++ encodeU64 (checksum body) = kCheckpointMagic ++ (encodeU32 kSchemaVersion ++
      (encodeU64 generation ++ (encodeU64 sequence ++
        (encodeU64 (UInt64.ofNat (encodeImagePayload image).length) ++ (encodeImagePayload image ++
          encodeU64 (checksum body)))))) := by
    simp only [body, checkpointBody, List.append_assoc]
  have checked : (body ++ encodeU64 (checksum body)).take
      ((body ++ encodeU64 (checksum body)).length - 8) = body := by
    rw [List.length_append, tail, Nat.add_sub_cancel, List.take_left]
  have long : ¬ (body ++ encodeU64 (checksum body)).length < kCheckpointEnvelopeBytes := by
    have minimum : kCheckpointEnvelopeBytes = 44 := rfl
    rw [List.length_append, tail, header]
    omega
  rw [← layout] at envelope
  rw [bytes, decodeCheckpoint, if_neg long, envelope]
  simp only [checked]
  rw [if_neg (by simp), decodeImagePayload_encodeImagePayload image valid fits]
  rfl

-- `after` holds the value of each entry in the entry's slot, and is `before` everywhere else.
def Stored {n : Nat} {σ α : Type} (keyOf : σ → Nat) (valueOf : σ → α) (entries : List σ)
    (before after : Table n α) : Prop :=
  (∀ entry ∈ entries, ∀ i : Fin n, keyOf entry = i.val → after i = valueOf entry) ∧
    ∀ i : Fin n, (∀ entry ∈ entries, keyOf entry ≠ i.val) → after i = before i

theorem storeBuckets_stored {slots : Nat} (ring : Table slots BucketRecord) (entries : List IndexedBucket)
    (nodup : (entries.map IndexedBucket.index).Nodup) :
    Stored (fun entry : IndexedBucket => entry.index.toNat) IndexedBucket.record entries ring
      (storeBuckets ring entries) :=
  ⟨fun entry member i here => storeBuckets_member ring entries i entry nodup member here,
    fun i other => storeBuckets_other ring entries i other⟩

theorem storeGeo_stored (table : GeoTable) (entries : List GeoCounters)
    (nodup : (entries.map GeoCounters.id).Nodup) :
    Stored (fun entry : GeoCounters => entry.id.toNat) GeoCounters.counters entries table
      (storeGeo table entries) := by
  have keys : (entries.map fun entry => entry.id.toNat).Nodup := by
    have h := nodup.map (f := UInt16.toNat) fun _ _ => UInt16.toNat_inj.mp
    rwa [List.map_map] at h
  refine ⟨?_, ?_⟩
  · intro entry member i here
    exact Table.foldl_set_member (fun entry : GeoCounters => entry.id.toNat) GeoCounters.counters entries
      table i entry keys member here
  · intro i other
    exact Table.foldl_set_other (fun entry : GeoCounters => entry.id.toNat) GeoCounters.counters entries
      table i other

structure Applied (image : PersistentImage) (patch : DirtyPatch) (next : PersistentImage) : Prop where
  runtime : next.runtime = patch.runtime
  lifetime : next.lifetime = patch.lifetime
  lifetimeGeo : Stored (fun entry : GeoCounters => entry.id.toNat) GeoCounters.counters patch.lifetimeGeo
    image.lifetimeGeo next.lifetimeGeo
  minutes : Stored (fun entry : IndexedBucket => entry.index.toNat) IndexedBucket.record patch.minutes
    image.minutes next.minutes
  days : Stored (fun entry : IndexedBucket => entry.index.toNat) IndexedBucket.record patch.days
    image.days next.days

theorem SlotValid.vacant (slots index : Nat) : SlotValid slots index {} :=
  ⟨by decide, by decide, ⟨List.nodup_nil, by simp⟩, fun counted => by contradiction⟩

theorem RuntimeState.valid_default : ({} : RuntimeState).Valid := by
  constructor <;> decide

theorem SlotValid.normalized {slots index : Nat} {record : BucketRecord}
    (valid : SlotValid slots index record) : SlotValid slots index record.normalized := by
  cases vacant : record.empty with
  | true =>
    have blank : record.normalized = {} := if_pos vacant
    rw [blank]
    exact SlotValid.vacant slots index
  | false =>
    have kept : record.normalized =
        { record with geo := record.geo.filter fun entry => !entry.counters.empty } :=
      if_neg (by simp [vacant])
    rw [kept]
    refine ⟨valid.low, valid.high, ⟨?_, ?_⟩, fun _ => valid.placed vacant⟩
    · exact valid.geo.1.sublist (List.filter_sublist.map _)
    · exact fun entry member => valid.geo.2 entry (List.mem_filter.mp member).1

theorem IndexedValid.normalized {slots : Nat} {entries : List IndexedBucket}
    (valid : IndexedValid slots entries) : IndexedValid slots (entries.map IndexedBucket.normalized) := by
  refine ⟨?_, ?_⟩
  · rw [normalized_index]
    exact valid.1
  · intro entry member
    obtain ⟨source, listed, rfl⟩ := List.mem_map.mp member
    exact ⟨(valid.2 source listed).1, (valid.2 source listed).2.normalized⟩

theorem DirtyPatch.Valid.normalized {patch : DirtyPatch} (valid : patch.Valid) : patch.normalized.Valid :=
  ⟨valid.runtime, valid.lifetimeGeo, valid.minutes.normalized, valid.days.normalized⟩

theorem applyPatch_applied (image : PersistentImage) (patch : DirtyPatch) (valid : patch.Valid) :
    Applied image patch (applyPatch image patch) where
  runtime := rfl
  lifetime := rfl
  lifetimeGeo := storeGeo_stored image.lifetimeGeo patch.lifetimeGeo valid.lifetimeGeo.1
  minutes := storeBuckets_stored image.minutes patch.minutes valid.minutes.1
  days := storeBuckets_stored image.days patch.days valid.days.1

theorem decodeAndApplyPatch_encodePatchPayload (image : PersistentImage) (patch : DirtyPatch)
    (valid : patch.Valid) (fits : (encodePatchPayload patch).length ≤ kMaxWalPayloadBytes) :
    decodeAndApplyPatch (encodePatchPayload patch) image = (true, applyPatch image patch.normalized) := by
  have decoded := decodePayload_encodePatchPayload kMaxWalPayloadBytes patch valid fits (by decide)
  rw [decodeAndApplyPatch, decoded]
  simp only [applyPatch, DirtyPatch.decoded, DirtyPatch.normalized]

def loneMinute (record : BucketRecord) : PersistentImage where
  minutes := Table.set (fun _ => {}) (slotIndex kMinuteBucketCount record.stamp) record

theorem imageBuckets_vacant {slots : Nat} : imageBuckets (fun _ : Fin slots => {}) = [] := by
  have none : (fun i : Fin slots => !((fun _ : Fin slots => ({} : BucketRecord)) i).empty) =
      fun _ => false := rfl
  rw [imageBuckets, none, List.filter_false, List.map_nil]

theorem imageGeo_vacant : imageGeo (fun _ => {}) = [] := by
  have none : (fun i : Fin kGeoCount => !((fun _ : Fin kGeoCount => ({} : Counters)) i).empty) =
      fun _ => false := rfl
  rw [imageGeo, none, List.filter_false, List.map_nil]

theorem imageBuckets_set {slots : Nat} (i : Fin slots) (record : BucketRecord)
    (counted : record.empty = false) :
    imageBuckets (Table.set (fun _ : Fin slots => {}) i.val record) =
      [{ index := UInt32.ofNat i.val, record }] := by
  have chosen : (fun j : Fin slots => !(Table.set (fun _ : Fin slots => {}) i.val record j).empty) =
      fun j => decide (j = i) := by
    funext j
    by_cases same : j = i
    · simp [Table.set_apply, same, counted]
    · have differs : j.val ≠ i.val := fun equal => same (Fin.ext equal)
      simp [Table.set_apply, same, differs]
      decide
  rw [imageBuckets, chosen, List.filter_eq,
    List.count_eq_one_of_mem (List.nodup_finRange slots) (List.mem_finRange i)]
  simp [Table.set_apply]

theorem loneMinute_valid (record : BucketRecord) (positive : 0 < record.stamp) (high : record.stamp < 2 ^ 63)
    (geo : GeoValid record.geo) : (loneMinute record).Valid where
  runtime := RuntimeState.valid_default
  minutes := by
    intro i
    simp only [loneMinute, Table.set_apply]
    split
    · rename_i here
      exact ⟨by omega, high, geo, fun _ => ⟨positive, here.symm⟩⟩
    · exact SlotValid.vacant _ _
  days := fun i => SlotValid.vacant _ _

theorem loneMinute_normal (record : BucketRecord) (normal : record.Normal) : (loneMinute record).Normal := by
  refine ⟨?_, fun _ => BucketRecord.normal_default⟩
  intro i
  simp only [loneMinute, Table.set_apply]
  split
  · exact normal
  · exact BucketRecord.normal_default

theorem length_encodeGeo (entries : List GeoCounters) :
    (encodeGeo entries).length = 4 + 18 * entries.length := by
  have width (entry : GeoCounters) : (encodeU16 entry.id ++ encodeCounters entry.counters).length = 18 := by
    simp [encodeU16, encodeCounters, encodeU64]
  simp [encodeGeo, encodeU32, List.length_flatMap, width]
  ring

theorem length_encodeBucket (record : BucketRecord) :
    (encodeBucket record).length = 28 + 18 * record.geo.length := by
  simp [encodeBucket, encodeI64, encodeCounters, encodeU64, length_encodeGeo]
  ring

theorem loneMinute_length (record : BucketRecord) (positive : 0 < record.stamp)
    (counted : record.empty = false) :
    (encodeImagePayload (loneMinute record)).length = 100 + 18 * record.geo.length := by
  have inside : slotIndex kMinuteBucketCount record.stamp < kMinuteBucketCount :=
    slotIndex_lt positive.le (by decide) (by decide)
  have minutes : imageBuckets (loneMinute record).minutes = _ := imageBuckets_set ⟨_, inside⟩ record counted
  have days : imageBuckets (loneMinute record).days = [] := imageBuckets_vacant
  have lifetime : imageGeo (loneMinute record).lifetimeGeo = [] := imageGeo_vacant
  rw [encodeImagePayload, minutes, days, lifetime]
  simp [encodeRuntime, encodeIndexed, encodeCounters, encodeI64, encodeU32, encodeU64, length_encodeGeo,
    length_encodeBucket]
  ring

theorem decodeCheckpoint_loneMinute (stamp : Int) (counters : Counters) (generation sequence : UInt64)
    (positive : 0 < stamp) (high : stamp < 2 ^ 63) (counted : counters.empty = false)
    (nonzero : generation ≠ 0) :
    decodeCheckpoint (checkpointBytes (loneMinute { stamp, counters }) generation sequence) =
      some { generation, sequence, image := loneMinute { stamp, counters } } := by
  have normal : (loneMinute { stamp, counters }).Normal := by
    apply loneMinute_normal
    refine (BucketRecord.normal_iff _).mpr ⟨fun vacant => ?_, fun _ => by simp⟩
    rw [BucketRecord.empty, counted] at vacant
    contradiction
  have fits : (encodeImagePayload (loneMinute { stamp, counters })).length ≤ kMaxCheckpointPayloadBytes := by
    rw [loneMinute_length { stamp, counters } positive counted, List.length_nil]
    decide
  have valid : (loneMinute { stamp, counters }).Valid :=
    loneMinute_valid { stamp, counters } positive high ⟨List.nodup_nil, by simp⟩
  rw [decodeCheckpoint_checkpointBytes _ generation sequence valid fits nonzero, normal.normalized_eq]

theorem codec_roundtrip :
    (∀ (image : PersistentImage) (generation sequence : UInt64), image.Valid →
      (encodeImagePayload image).length ≤ kMaxCheckpointPayloadBytes → generation ≠ 0 →
        decodeCheckpoint (checkpointBytes image generation sequence) =
          some { generation, sequence, image := image.normalized } ∧
        (image.Normal → decodeCheckpoint (checkpointBytes image generation sequence) =
          some { generation, sequence, image })) ∧
    (∀ (patch : DirtyPatch) (image : PersistentImage), patch.Valid →
      (encodePatchPayload patch).length ≤ kMaxWalPayloadBytes →
        (decodeAndApplyPatch (encodePatchPayload patch) image).1 = true ∧
        Applied image patch.normalized (decodeAndApplyPatch (encodePatchPayload patch) image).2 ∧
        (patch.Normal → Applied image patch (decodeAndApplyPatch (encodePatchPayload patch) image).2)) ∧
    ∀ (data : Bytes) (image : PersistentImage), (decodeAndApplyPatch data image).1 = false →
      (decodeAndApplyPatch data image).2 = image := by
  refine ⟨?_, ?_, ?_⟩
  · intro image generation sequence valid fits nonzero
    have decoded := decodeCheckpoint_checkpointBytes image generation sequence valid fits nonzero
    refine ⟨decoded, ?_⟩
    intro normal
    rw [decoded, normal.normalized_eq]
  · intro patch image valid fits
    have applied := decodeAndApplyPatch_encodePatchPayload image patch valid fits
    have stored := applyPatch_applied image patch.normalized valid.normalized
    rw [applied]
    refine ⟨rfl, stored, ?_⟩
    intro normal
    rw [normal.normalized_eq] at stored ⊢
    exact stored
  · intro data image rejected
    unfold decodeAndApplyPatch at rejected ⊢
    split
    · rfl
    · rename_i patch decoded
      simp [decoded] at rejected

theorem codec_roundtrip_lone_minute :
    let image := loneMinute ⟨33333333, ⟨1, 0⟩, [⟨538, ⟨1, 0⟩⟩]⟩
    decodeCheckpoint (checkpointBytes image 3 0) = some { generation := 3, sequence := 0, image } := by
  refine (codec_roundtrip.1 _ 3 0 (loneMinute_valid _ (by decide) (by decide) ?_) ?_ (by decide)).2 ?_
  · exact ⟨by simp, by simp; decide⟩
  · rw [loneMinute_length _ (by decide) (by decide)]
    decide
  · exact loneMinute_normal _ ((BucketRecord.normal_iff _).mpr ⟨by decide, by decide⟩)

end SubConverter.Statistics
