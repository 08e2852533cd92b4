import SubConverter.Statistics.RoundTrip

set_option autoImplicit false

namespace SubConverter.Statistics

open Wire

theorem yields_i64 : Yields decodeI64 fun value => -2 ^ 63 ≤ value ∧ value < 2 ^ 63 := by
  refine Yields.bind (Yields.trivial decodeU64) fun raw _ => Yields.pure ?_
  have bound := raw.toNat_lt
  split <;> omega

theorem yields_runtime : Yields decodeRuntime RuntimeState.Valid := by
  refine Yields.bind yields_i64 fun firstStartedAt first => ?_
  refine Yields.bind yields_i64 fun persistedRuntimeSeconds persisted => ?_
  refine Yields.bind yields_i64 fun lastSeenAt seen => ?_
  refine Yields.bind yields_i64 fun lastStoppedAt stopped => ?_
  refine Yields.bind (Yields.trivial decodeU64) fun launchCount _ => ?_
  refine Yields.bind (Yields.require _) fun _ nonneg => Yields.pure ?_
  exact ⟨⟨nonneg.1, first.2⟩, ⟨nonneg.2.1, persisted.2⟩, ⟨nonneg.2.2.1, seen.2⟩, ⟨nonneg.2.2.2, stopped.2⟩⟩

theorem yields_geoId : Yields decodeGeoId fun id => id.toNat < kGeoCount := by
  refine Yields.bind (Yields.trivial decodeU16) fun id _ => ?_
  exact Yields.bind (Yields.require _) fun _ inside => Yields.pure inside

theorem yields_geo : Yields decodeGeo GeoValid := by
  refine Yields.bind (Yields.trivial decodeU32) fun count _ => ?_
  refine Yields.bind (Yields.trivial _) fun _ _ => ?_
  refine Yields.bind (yields_distinct yields_geoId (fun _ _ => Yields.trivial decodeCounters) count.toNat [])
    fun entries facts => Yields.pure ⟨?_, ?_⟩
  · simpa [Function.comp_def] using facts.1
  · intro entry member
    obtain ⟨pair, listed, rfl⟩ := List.mem_map.mp member
    exact (facts.2 pair listed).2.1

-- What `decodeBucket` guarantees of a bucket before its slot is looked at.
def Decoded (record : BucketRecord) : Prop :=
  -2 ^ 63 ≤ record.stamp ∧ record.stamp < 2 ^ 63 ∧ GeoValid record.geo ∧ record.Normal

theorem yields_bucket : Yields decodeBucket Decoded := by
  refine Yields.bind yields_i64 fun stamp range => ?_
  refine Yields.bind (Yields.trivial decodeCounters) fun counters _ => ?_
  refine Yields.bind yields_geo fun geo valid => Yields.pure ?_
  by_cases vacant : counters.empty = true
  · rw [if_pos vacant, empty_eq_default vacant]
    exact ⟨by decide, by decide, ⟨List.nodup_nil, by simp⟩, BucketRecord.normal_default⟩
  · rw [if_neg vacant]
    refine ⟨range.1, range.2, ⟨?_, ?_⟩, ?_⟩
    · exact valid.1.sublist (List.filter_sublist.map _)
    · exact fun entry member => valid.2 entry (List.mem_filter.mp member).1
    · refine (BucketRecord.normal_iff _).mpr ⟨fun blank => absurd blank vacant, fun _ entry member => ?_⟩
      simpa using (List.mem_filter.mp member).2

theorem yields_slot (slots : Nat) (index : UInt32) :
    Yields (decodeSlot slots index) fun record => SlotValid slots index.toNat record ∧ record.Normal := by
  refine Yields.bind yields_bucket fun record decoded => ?_
  refine Yields.bind (Yields.require _) fun _ placed => Yields.pure ?_
  obtain ⟨low, high, geo, normal⟩ := decoded
  refine ⟨⟨low, high, geo, fun counted => ?_⟩, normal⟩
  rcases placed with vacant | placed
  · rw [counted] at vacant
    contradiction
  · rw [not_or, not_le, not_not] at placed
    exact placed

theorem yields_indexed (slots : Nat) : Yields (decodeIndexed slots) fun entries =>
    IndexedValid slots entries ∧ ∀ entry ∈ entries, entry.record.Normal := by
  have yieldsKey : Yields (decodeIndex slots) fun index => index.toNat < slots := by
    refine Yields.bind (Yields.trivial decodeU32) fun index _ => ?_
    exact Yields.bind (Yields.require _) fun _ inside => Yields.pure inside
  refine Yields.bind (Yields.trivial decodeU32) fun count _ => ?_
  refine Yields.bind (Yields.trivial _) fun _ _ => ?_
  refine Yields.bind (yields_distinct yieldsKey (fun index _ => yields_slot slots index) count.toNat [])
    fun entries facts => Yields.pure ⟨⟨?_, ?_⟩, ?_⟩
  · simpa [Function.comp_def] using facts.1
  · intro entry member
    obtain ⟨pair, listed, rfl⟩ := List.mem_map.mp member
    exact ⟨(facts.2 pair listed).2.1, (facts.2 pair listed).2.2.1⟩
  · intro entry member
    obtain ⟨pair, listed, rfl⟩ := List.mem_map.mp member
    exact (facts.2 pair listed).2.2.2

theorem yields_fields : Yields decodeFields fun patch => patch.Valid ∧ patch.Normal := by
  refine Yields.bind yields_runtime fun runtime validRuntime => ?_
  refine Yields.bind (Yields.trivial decodeCounters) fun lifetime _ => ?_
  refine Yields.bind yields_geo fun lifetimeGeo validGeo => ?_
  refine Yields.bind (yields_indexed kMinuteBucketCount) fun minutes validMinutes => ?_
  refine Yields.bind (yields_indexed kDailyBucketCount) fun days validDays => Yields.pure ⟨?_, ?_⟩
  · exact ⟨validRuntime, validGeo, validMinutes.1, validDays.1⟩
  · exact ⟨validMinutes.2, validDays.2⟩

theorem decodePayload_valid {limit : Nat} {data : Bytes} {patch : DirtyPatch}
    (decoded : decodePayload limit data = some patch) : patch.Valid ∧ patch.Normal := by
  unfold decodePayload at decoded
  split at decoded
  · contradiction
  · split at decoded
    · rename_i fields ran
      cases decoded
      exact yields_fields _ _ _ ran
    · contradiction

theorem PersistentImage.valid_default : ({} : PersistentImage).Valid where
  runtime := RuntimeState.valid_default
  minutes := fun _ => SlotValid.vacant _ _
  days := fun _ => SlotValid.vacant _ _

theorem storeBuckets_valid {slots : Nat} {ring : Table slots BucketRecord} {entries : List IndexedBucket}
    (valid : ∀ i, SlotValid slots i.val (ring i)) (listed : IndexedValid slots entries) (i : Fin slots) :
    SlotValid slots i.val (storeBuckets ring entries i) := by
  have stored := storeBuckets_stored ring entries listed.1
  by_cases present : ∃ entry ∈ entries, entry.index.toNat = i.val
  · obtain ⟨entry, member, here⟩ := present
    rw [stored.1 entry member i here, ← here]
    exact (listed.2 entry member).2
  · rw [stored.2 i fun entry member here => present ⟨entry, member, here⟩]
    exact valid i

theorem storeBuckets_normal {slots : Nat} {ring : Table slots BucketRecord} {entries : List IndexedBucket}
    (nodup : (entries.map IndexedBucket.index).Nodup) (before : ∀ i, (ring i).Normal)
    (normal : ∀ entry ∈ entries, entry.record.Normal) (i : Fin slots) :
    (storeBuckets ring entries i).Normal := by
  have stored := storeBuckets_stored ring entries nodup
  by_cases present : ∃ entry ∈ entries, entry.index.toNat = i.val
  · obtain ⟨entry, member, here⟩ := present
    rw [stored.1 entry member i here]
    exact normal entry member
  · rw [stored.2 i fun entry member here => present ⟨entry, member, here⟩]
    exact before i

theorem applyPatch_valid {image : PersistentImage} {patch : DirtyPatch} (valid : image.Valid)
    (listed : patch.Valid) : (applyPatch image patch).Valid :=
  ⟨listed.runtime, storeBuckets_valid valid.minutes listed.minutes,
    storeBuckets_valid valid.days listed.days⟩

theorem applyPatch_normal {image : PersistentImage} {patch : DirtyPatch} (before : image.Normal)
    (listed : patch.Valid) (normal : patch.Normal) : (applyPatch image patch).Normal :=
  ⟨storeBuckets_normal listed.minutes.1 before.1 normal.1, storeBuckets_normal listed.days.1 before.2 normal.2⟩

theorem decodeImagePayload_valid {data : Bytes} {image : PersistentImage}
    (decoded : decodeImagePayload data = some image) : image.Valid ∧ image.Normal := by
  unfold decodeImagePayload at decoded
  obtain ⟨patch, accepted, rfl⟩ := Option.map_eq_some_iff.mp decoded
  have facts := decodePayload_valid accepted
  refine ⟨applyPatch_valid PersistentImage.valid_default facts.1, applyPatch_normal ?_ facts.1 facts.2⟩
  exact ⟨fun _ => BucketRecord.normal_default, fun _ => BucketRecord.normal_default⟩

theorem decodeCheckpoint_valid {bytes : Bytes} {checkpoint : Checkpoint}
    (accepted : decodeCheckpoint bytes = some checkpoint) :
    checkpoint.image.Valid ∧ checkpoint.image.Normal := by
  unfold decodeCheckpoint at accepted
  split at accepted
  · contradiction
  · split at accepted
    · split at accepted
      · contradiction
      · obtain ⟨image, decoded, rfl⟩ := Option.map_eq_some_iff.mp accepted
        exact decodeImagePayload_valid decoded
    · contradiction

end SubConverter.Statistics
