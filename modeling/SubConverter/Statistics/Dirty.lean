import SubConverter.Statistics.Restart

set_option autoImplicit false

namespace SubConverter.Statistics

def BucketRecord.Same (left right : BucketRecord) : Prop :=
  left.stamp = right.stamp ∧ ∀ metric : Metric, metric.ofRecord left = metric.ofRecord right

theorem BucketRecord.Same.refl (record : BucketRecord) : record.Same record := ⟨rfl, fun _ => rfl⟩

structure PersistentImage.Same (left right : PersistentImage) : Prop where
  runtime : left.runtime = right.runtime
  lifetime : left.lifetime = right.lifetime
  lifetimeGeo : left.lifetimeGeo = right.lifetimeGeo
  minutes : ∀ i, (left.minutes i).Same (right.minutes i)
  days : ∀ i, (left.days i).Same (right.days i)

namespace BucketRing

variable {slots windowCount : Nat} {sizes : Fin windowCount → Int}

theorem image_eq_record (ring : BucketRing slots windowCount) : ring.image = ring.record := by
  funext i
  unfold image
  by_cases started : ring.current.stamp > 0
  · rw [if_pos started]
    by_cases here : i.val = slotIndex slots ring.current.stamp
    · exact if_pos here
    · exact (if_neg here).trans (if_neg fun both => here both.2.symm).symm
  · rw [if_neg started]
    exact (if_neg fun both => started both.1).symm

-- A stored table agrees with the ring wherever the ring has no dirty mark.
def Agrees (ring : BucketRing slots windowCount) (stored : Table slots BucketRecord) : Prop :=
  ∀ i, ring.dirty i = false → (stored i).Same (ring.record i)

def AgreesAll (ring : BucketRing slots windowCount) (stored : Table slots BucketRecord) : Prop :=
  ∀ i, (stored i).Same (ring.record i)

def Marks (ring next : BucketRing slots windowCount) : Prop :=
  ∀ i, next.dirty i = false → ring.dirty i = false ∧ next.record i = ring.record i

theorem Marks.refl (ring : BucketRing slots windowCount) : ring.Marks ring := fun _ clean => ⟨clean, rfl⟩

theorem Marks.trans {first second third : BucketRing slots windowCount} (early : first.Marks second)
    (late : second.Marks third) : first.Marks third := by
  intro i clean
  obtain ⟨middle, same⟩ := late i clean
  obtain ⟨start, before⟩ := early i middle
  exact ⟨start, same.trans before⟩

theorem Marks.agrees {ring next : BucketRing slots windowCount} {stored : Table slots BucketRecord}
    (marks : ring.Marks next) (agrees : ring.Agrees stored) : next.Agrees stored := by
  intro i clean
  obtain ⟨before, same⟩ := marks i clean
  rw [same]
  exact agrees i before

theorem record_other (ring : BucketRing slots windowCount) (i : Fin slots)
    (other : i.val ≠ slotIndex slots ring.current.stamp) : ring.record i = ring.sealedBuckets i :=
  if_neg fun both => other both.2.symm

theorem count_marks (ring : BucketRing slots windowCount) (value : Counters) (ids : List GeoId) :
    ring.Marks (ring.count value ids) := by
  intro i clean
  have other : i.val ≠ slotIndex slots ring.current.stamp := by
    intro here
    simp [count, Table.set_apply, here] at clean
  have mark : (ring.count value ids).dirty i = ring.dirty i := if_neg other
  have after : (ring.count value ids).record i = ring.sealedBuckets i := record_other _ i other
  refine ⟨mark ▸ clean, ?_⟩
  rw [after, record_other ring i other]

theorem step_dirty (ring : BucketRing slots windowCount) (i : Fin slots) :
    (ring.step sizes).dirty i = if i.val = slotIndex slots (ring.current.stamp + 1) then true
      else (ring.expire sizes (ring.current.stamp + 1)).sealCurrent.dirty i := rfl

theorem step_marks (ring : BucketRing slots windowCount) : ring.Marks (ring.step sizes) := by
  intro i clean
  have apart : i.val ≠ slotIndex slots (ring.current.stamp + 1) := by
    intro here
    rw [step_dirty, if_pos here] at clean
    contradiction
  rw [step_dirty, if_neg apart] at clean
  have after : (ring.step sizes).record i = (ring.step sizes).sealedBuckets i := record_other _ i apart
  have sealedPart : (ring.step sizes).sealedBuckets =
      (ring.expire sizes (ring.current.stamp + 1)).sealCurrent.sealedBuckets := rfl
  rw [after, sealedPart]
  unfold sealCurrent at clean ⊢
  by_cases idle : ring.current.stamp ≤ 0
  · have still : (ring.expire sizes (ring.current.stamp + 1)).current.stamp ≤ 0 := idle
    rw [if_pos still] at clean ⊢
    exact ⟨clean, (if_neg fun both => absurd both.1 (not_lt.mpr idle)).symm⟩
  · have moving : ¬ (ring.expire sizes (ring.current.stamp + 1)).current.stamp ≤ 0 := idle
    rw [if_neg moving] at clean ⊢
    have other : i.val ≠ slotIndex slots ring.current.stamp := by
      intro here
      have marked : (ring.expire sizes (ring.current.stamp + 1)).dirty.set
          (slotIndex slots ring.current.stamp) true i = true := if_pos here
      exact Bool.noConfusion (marked.symm.trans clean)
    refine ⟨(if_neg other).symm.trans clean, ?_⟩
    rw [record_other ring i other]
    exact if_neg other

theorem advance_marks (ring : BucketRing slots windowCount) (target : Int) :
    ring.Marks (ring.advance sizes target) := by
  unfold advance
  split
  · exact Marks.refl ring
  · split
    · exact fun i clean => Bool.noConfusion clean
    · exact Function.Iterate.rec (fun next => ring.Marks next) (Marks.refl ring)
        (fun next marks => marks.trans (step_marks next)) _

theorem storeBuckets_dirtyBuckets (small : slots < 2 ^ 32) (ring : BucketRing slots windowCount)
    (stored : Table slots BucketRecord) (i : Fin slots) :
    storeBuckets stored (Core.dirtyBuckets ring) i = if ring.dirty i then ring.record i else stored i := by
  have back (j : Fin slots) : (UInt32.ofNat j.val).toNat = j.val := by
    have inside := j.isLt
    exact u32_roundtrip (by omega)
  have nodup : ((Core.dirtyBuckets ring).map IndexedBucket.index).Nodup := by
    unfold Core.dirtyBuckets
    rw [List.map_map]
    apply List.Nodup.map_on
    · intro a _ b _ same
      have codes := congrArg UInt32.toNat same
      simp only [Function.comp_apply, back] at codes
      exact Fin.ext codes
    · exact (List.nodup_finRange _).filter _
  cases marked : ring.dirty i with
  | true =>
    have listed : ({ index := UInt32.ofNat i.val, record := ring.record i } : IndexedBucket) ∈
        Core.dirtyBuckets ring := List.mem_map.mpr ⟨i, by simp [marked], rfl⟩
    exact storeBuckets_member stored _ i _ nodup listed (back i)
  | false =>
    refine storeBuckets_other stored _ i ?_
    intro entry member
    obtain ⟨j, present, rfl⟩ := List.mem_map.mp member
    rw [back]
    intro same
    rw [Fin.ext same] at present
    simp [marked] at present

theorem Agrees.store {ring : BucketRing slots windowCount} {stored : Table slots BucketRecord}
    (agrees : ring.Agrees stored) (small : slots < 2 ^ 32) :
    ring.AgreesAll (storeBuckets stored (Core.dirtyBuckets ring)) := by
  intro i
  rw [storeBuckets_dirtyBuckets small]
  cases marked : ring.dirty i with
  | true => exact BucketRecord.Same.refl _
  | false => exact agrees i marked

theorem foldl_set_amount (entries : List GeoCounters) (nodup : (entries.map GeoCounters.id).Nodup)
    (table : GeoTable) (i : Fin kGeoCount) (vacant : (table i).amount = 0) :
    (entries.foldl (fun geo entry => geo.set entry.id.toNat entry.counters) table i).amount =
      (entries.map fun entry => if entry.id.toNat = i.val then entry.counters.amount else 0).sum := by
  induction entries generalizing table with
  | nil => simpa using vacant
  | cons entry rest ih =>
    simp only [List.map_cons, List.nodup_cons, List.mem_map, not_exists, not_and] at nodup
    rw [List.foldl_cons, List.map_cons, List.sum_cons]
    by_cases here : entry.id.toNat = i.val
    · have absent : ∀ later ∈ rest, later.id.toNat ≠ i.val := by
        intro later member same
        exact nodup.1 later member (UInt16.toNat_inj.mp (same.trans here.symm))
      have none : (rest.map fun later => if later.id.toNat = i.val then later.counters.amount else 0).sum = 0 := by
        apply List.sum_eq_zero
        intro amount member
        obtain ⟨later, listed, rfl⟩ := List.mem_map.mp member
        exact if_neg (absent later listed)
      rw [Table.foldl_set_other (fun entry : GeoCounters => entry.id.toNat) GeoCounters.counters rest _ i absent,
        Table.set_apply, if_pos here.symm, if_pos here, none, add_zero]
    · rw [if_neg here, zero_add]
      refine ih nodup.2 _ ?_
      rw [Table.set_apply, if_neg fun same => here same.symm]
      exact vacant

-- The current bucket that a stored one is turned into at a restart.
def activated (record : BucketRecord) : DenseBucket where
  stamp := record.stamp
  counters := record.counters
  geo := record.geo.foldl (fun geo entry => geo.set entry.id.toNat entry.counters) (fun _ => {})

theorem toRecord_same (record : BucketRecord) (counted : record.empty = false) (geo : GeoValid record.geo) :
    record.Same (activated record).toRecord := by
  refine ⟨?_, ?_⟩
  · rcases toRecord_stamp (activated record) with ⟨stamp, -⟩ | ⟨-, vacant⟩
    · exact stamp.symm
    · have same : (activated record).counters.empty = record.empty := rfl
      rw [same, counted] at vacant
      contradiction
  · intro metric
    rw [ofRecord_toRecord]
    cases metric with
    | total => rfl
    | geo id => exact (foldl_set_amount record.geo geo.1 (fun _ => {}) id rfl).symm

theorem vacant_same (stamp : Int) : ({} : BucketRecord).Same ({ stamp } : DenseBucket).toRecord := by
  refine ⟨rfl, ?_⟩
  intro metric
  rw [ofRecord_toRecord, metric.ofRecord_default]
  exact metric.ofTable_zero.symm

theorem restoreRing_agreesAll (stored : Table slots BucketRecord) (nowStamp : Int)
    (valid : ∀ i, SlotValid slots i.val (stored i)) (normal : ∀ i, (stored i).Normal) :
    (Core.restoreRing stored nowStamp : BucketRing slots windowCount).AgreesAll stored := by
  have latest := latest_all stored
  intro i
  simp only [Core.restoreRing, activateLatest_eq]
  generalize (List.finRange slots).foldl (latestStep stored) (0, 0) = best at latest ⊢
  by_cases some : best.1 > 0
  · obtain ⟨j, index, counted, stamp⟩ := latest.found some
    have chosen : stored.getD best.2 {} = stored j := by
      rw [← index]
      exact Table.getD_of_lt _ _ j.isLt
    have slot : slotIndex slots best.1 = j.val := stamp ▸ ((valid j).placed counted).2
    rw [if_pos some, if_neg (by simp only; omega)]
    by_cases here : i = j
    · subst here
      have active := toRecord_same (stored i) counted (valid i).geo
      rw [activated, stamp] at active
      simp only [record, some, slot, chosen, and_self, if_true]
      exact active
    · have apart : i.val ≠ j.val := fun same => here (Fin.ext same)
      have kept : stored.set best.2 {} i = stored i := if_neg (index ▸ apart)
      simp only [record, some, slot, Ne.symm apart, and_false, if_false, kept]
      exact BucketRecord.Same.refl _
  · rw [if_neg some, if_pos (le_refl (0 : Int))]
    have blank : stored i = {} := by
      cases vacant : (stored i).empty with
      | true => exact ((BucketRecord.normal_iff _).mp (normal i)).1 vacant
      | false =>
        have positive := ((valid i).placed vacant).1
        have bound := latest.newest i (List.mem_finRange i) vacant
        omega
    unfold record
    split
    · rw [blank]
      exact vacant_same nowStamp
    · exact BucketRecord.Same.refl _

end BucketRing

namespace Core

structure Agrees (core : Core) (image : PersistentImage) : Prop where
  lifetimeGeo : ∀ i, core.dirtyLifetimeGeo i = false → image.lifetimeGeo i = core.lifetimeGeo i
  minutes : core.minutes.Agrees image.minutes
  days : core.days.Agrees image.days

structure AgreesAll (core : Core) (image : PersistentImage) : Prop where
  lifetimeGeo : image.lifetimeGeo = core.lifetimeGeo
  minutes : core.minutes.AgreesAll image.minutes
  days : core.days.AgreesAll image.days

theorem AgreesAll.agrees {core : Core} {image : PersistentImage} (all : core.AgreesAll image) :
    core.Agrees image :=
  ⟨fun i _ => congrFun all.lifetimeGeo i, fun i _ => all.minutes i, fun i _ => all.days i⟩

structure Marks (core next : Core) : Prop where
  lifetimeGeo : ∀ i, next.dirtyLifetimeGeo i = false →
    core.dirtyLifetimeGeo i = false ∧ next.lifetimeGeo i = core.lifetimeGeo i
  minutes : core.minutes.Marks next.minutes
  days : core.days.Marks next.days

theorem Marks.agrees {core next : Core} {image : PersistentImage} (marks : core.Marks next)
    (agrees : core.Agrees image) : next.Agrees image where
  lifetimeGeo := by
    intro i clean
    obtain ⟨before, same⟩ := marks.lifetimeGeo i clean
    rw [same]
    exact agrees.lifetimeGeo i before
  minutes := marks.minutes.agrees agrees.minutes
  days := marks.days.agrees agrees.days

theorem iterate_stepMinute_frame (core : Core) (turns : Nat) :
    (stepMinute^[turns] core).lifetimeGeo = core.lifetimeGeo ∧
      (stepMinute^[turns] core).dirtyLifetimeGeo = core.dirtyLifetimeGeo ∧
      (stepMinute^[turns] core).dirtyVersion = core.dirtyVersion := by
  induction turns with
  | zero => exact ⟨rfl, rfl, rfl⟩
  | succ turns ih =>
    rw [Function.iterate_succ_apply']
    exact ih

theorem advanceMinutes_frame (core : Core) (target : Int) :
    (core.advanceMinutes target).lifetimeGeo = core.lifetimeGeo ∧
      (core.advanceMinutes target).dirtyLifetimeGeo = core.dirtyLifetimeGeo ∧
      (core.advanceMinutes target).dirtyVersion = core.dirtyVersion := by
  unfold advanceMinutes
  split
  · exact ⟨rfl, rfl, rfl⟩
  · split
    · exact ⟨rfl, rfl, rfl⟩
    · exact iterate_stepMinute_frame core _

theorem advanceTo_marks (core : Core) (now : Int) : core.Marks (core.advanceTo now) where
  lifetimeGeo := by
    obtain ⟨totals, marks, -⟩ := advanceMinutes_frame core (now.tdiv 60)
    intro i
    simp only [advanceTo, advanceDays]
    split <;> simp only [totals, marks] <;> exact fun clean => ⟨clean, trivial⟩
  minutes := by
    rw [advanceTo_minutes]
    exact BucketRing.advance_marks _ _
  days := by
    rw [advanceTo_days]
    exact BucketRing.advance_marks _ _

-- The clock passes a bucket boundary.
def Moves (core : Core) (now : Int) : Prop :=
  now.tdiv 60 > core.minutes.current.stamp ∨ now.tdiv (24 * 60 * 60) > core.days.current.stamp

theorem advanceTo_version (core : Core) (now : Int) :
    (core.Moves now ∧ (core.advanceTo now).dirtyVersion = saturatedAddValue core.dirtyVersion 1) ∨
      (¬ core.Moves now ∧ (core.advanceTo now).dirtyVersion = core.dirtyVersion) := by
  have frame := (advanceMinutes_frame core (now.tdiv 60)).2.2
  by_cases moved : core.Moves now
  · refine .inl ⟨moved, ?_⟩
    unfold Moves at moved
    simp only [advanceTo, advanceDays, moved, if_true, frame]
  · refine .inr ⟨moved, ?_⟩
    unfold Moves at moved
    simp only [advanceTo, advanceDays, moved, if_false, frame]

theorem advanceTo_still (core : Core) (now : Int) (still : ¬ core.Moves now) :
    (core.advanceTo now).minutes = core.minutes ∧ (core.advanceTo now).days = core.days ∧
      (core.advanceTo now).lifetimeGeo = core.lifetimeGeo := by
  unfold Moves at still
  rw [not_or, not_lt, not_lt] at still
  refine ⟨?_, ?_, ?_⟩
  · rw [advanceTo_minutes]
    exact if_pos still.1
  · rw [advanceTo_days]
    exact if_pos still.2
  · have totals := (advanceMinutes_frame core (now.tdiv 60)).1
    simp only [advanceTo, advanceDays]
    split <;> exact totals

theorem foldl_set_true (ids : List GeoId) (dirty : Table kGeoCount Bool) (i : Fin kGeoCount)
    (clean : ids.foldl (fun dirty id => dirty.set id.toNat true) dirty i = false) :
    dirty i = false ∧ ∀ id ∈ ids, id.toNat ≠ i.val := by
  induction ids generalizing dirty with
  | nil => exact ⟨clean, by simp⟩
  | cons id rest ih =>
    obtain ⟨before, later⟩ := ih (dirty.set id.toNat true) clean
    rw [Table.set_apply] at before
    split at before
    · contradiction
    · rename_i other
      refine ⟨before, ?_⟩
      intro listed member
      rcases List.mem_cons.mp member with rfl | old
      · exact fun same => other same.symm
      · exact later listed old

theorem foldl_modify_other (ids : List GeoId) (value : Counters) (table : GeoTable) (i : Fin kGeoCount)
    (other : ∀ id ∈ ids, id.toNat ≠ i.val) :
    ids.foldl (fun geo id => geo.modify id.toNat (add · value)) table i = table i := by
  induction ids generalizing table with
  | nil => rfl
  | cons id rest ih =>
    rw [List.foldl_cons, ih _ fun later member => other later (List.mem_cons_of_mem _ member),
      Table.modify_apply, if_neg (other id (by simp)).symm]

theorem record_marks (core : Core) (now : Int) (country chinaRegion : GeoId) (ruleConversions : UInt64) :
    core.Marks (core.record now country chinaRegion ruleConversions) := by
  have moved := advanceTo_marks core now
  refine ⟨?_, ?_, ?_⟩
  · intro i clean
    obtain ⟨before, other⟩ := foldl_set_true _ _ i clean
    obtain ⟨start, same⟩ := moved.lifetimeGeo i before
    exact ⟨start, (foldl_modify_other _ _ _ i other).trans same⟩
  · exact moved.minutes.trans (BucketRing.count_marks _ _ _)
  · exact moved.days.trans (BucketRing.count_marks _ _ _)

theorem storeGeo_dirty (dirty : Table kGeoCount Bool) (totals stored : GeoTable) (i : Fin kGeoCount) :
    storeGeo stored (((List.finRange kGeoCount).filter dirty).map fun i =>
      { id := UInt16.ofNat i.val, counters := totals i }) i = if dirty i then totals i else stored i := by
  have nodup : ((((List.finRange kGeoCount).filter dirty).map fun i =>
      ({ id := UInt16.ofNat i.val, counters := totals i } : GeoCounters)).map GeoCounters.id).Nodup := by
    rw [List.map_map]
    apply List.Nodup.map_on
    · intro a _ b _ same
      have codes := congrArg UInt16.toNat same
      simp only [Function.comp_apply, geoId_roundtrip] at codes
      exact Fin.ext codes
    · exact (List.nodup_finRange _).filter _
  have stored := storeGeo_stored stored _ nodup
  cases marked : dirty i with
  | true =>
    exact stored.1 { id := UInt16.ofNat i.val, counters := totals i }
      (List.mem_map.mpr ⟨i, by simp [marked], rfl⟩) i (geoId_roundtrip i)
  | false =>
    refine stored.2 i ?_
    intro entry member
    obtain ⟨j, present, rfl⟩ := List.mem_map.mp member
    simp only [geoId_roundtrip]
    intro same
    rw [Fin.ext same] at present
    simp [marked] at present

theorem takeDirtyPatch_minutes (core : Core) (now : Int) (stopping : Bool) :
    (core.takeDirtyPatch now stopping).2.minutes = { core.minutes with dirty := fun _ => false } ∧
      (core.takeDirtyPatch now stopping).1.minutes = dirtyBuckets core.minutes := by
  simp only [takeDirtyPatch, runtimePatch, and_self]

theorem takeDirtyPatch_days (core : Core) (now : Int) (stopping : Bool) :
    (core.takeDirtyPatch now stopping).2.days = { core.days with dirty := fun _ => false } ∧
      (core.takeDirtyPatch now stopping).1.days = dirtyBuckets core.days := by
  simp only [takeDirtyPatch, runtimePatch, and_self]

theorem cleared_agreesAll {slots windowCount : Nat} {ring : BucketRing slots windowCount}
    {stored : Table slots BucketRecord} (all : ring.AgreesAll stored) :
    ({ ring with dirty := fun _ => false } : BucketRing slots windowCount).AgreesAll stored := all

theorem takeDirtyPatch_agreesAll (core : Core) (image : PersistentImage) (now : Int) (stopping : Bool)
    (agrees : core.Agrees image) :
    (core.takeDirtyPatch now stopping).2.AgreesAll (applyPatch image (core.takeDirtyPatch now stopping).1) where
  lifetimeGeo := by
    funext i
    simp only [applyPatch, takeDirtyPatch, runtimePatch]
    rw [storeGeo_dirty]
    split
    · rfl
    · rename_i clean
      exact agrees.lifetimeGeo i (by simpa using clean)
  minutes := by
    obtain ⟨ring, buckets⟩ := takeDirtyPatch_minutes core now stopping
    simp only [applyPatch, ring, buckets]
    exact cleared_agreesAll (agrees.minutes.store (by decide))
  days := by
    obtain ⟨ring, buckets⟩ := takeDirtyPatch_days core now stopping
    simp only [applyPatch, ring, buckets]
    exact cleared_agreesAll (agrees.days.store (by decide))

end Core

end SubConverter.Statistics
