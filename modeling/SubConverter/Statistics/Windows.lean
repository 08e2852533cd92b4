import SubConverter.Lib.RollingWindow
import SubConverter.Statistics.Core

set_option autoImplicit false

namespace SubConverter.Statistics

open RollingWindow

-- One of the numbers a bucket keeps: its total, or its count for one geo id.
inductive Metric where
  | total
  | geo (id : Fin kGeoCount)

namespace Metric

def ofTable : Metric → Counters → GeoTable → Nat × Nat
  | .total, counters, _ => counters.amount
  | .geo id, _, table => (table id).amount

def ofAggregate (metric : Metric) (aggregate : Aggregate) : Nat × Nat :=
  metric.ofTable aggregate.counters aggregate.geo

def ofDense (metric : Metric) (bucket : DenseBucket) : Nat × Nat :=
  metric.ofTable bucket.counters bucket.geo

def ofRecord : Metric → BucketRecord → Nat × Nat
  | .total, record => record.counters.amount
  | .geo id, record =>
    (record.geo.map fun entry => if entry.id.toNat = id.val then entry.counters.amount else 0).sum

@[simp] theorem ofTable_zero (metric : Metric) : metric.ofTable {} (fun _ => {}) = 0 := by
  cases metric <;> rfl

theorem ofRecord_default (metric : Metric) : metric.ofRecord {} = 0 := by
  cases metric <;> rfl

theorem ofRecord_stamp (metric : Metric) (record : BucketRecord) (stamp : Int) :
    metric.ofRecord { record with stamp } = metric.ofRecord record := by
  cases metric <;> rfl

end Metric

def Bounded (amount : Nat × Nat) : Prop := amount.1 < 2 ^ 64 ∧ amount.2 < 2 ^ 64

theorem Bounded.of_le {small large : Nat × Nat} (bounded : Bounded large) (order : small ≤ large) :
    Bounded small :=
  ⟨lt_of_le_of_lt order.1 bounded.1, lt_of_le_of_lt order.2 bounded.2⟩

theorem le_add_amount (left right : Nat × Nat) : left ≤ left + right :=
  ⟨Nat.le_add_right _ _, Nat.le_add_right _ _⟩

theorem add_sub_amount (left right : Nat × Nat) : left + right - right = left :=
  Prod.ext (Nat.add_sub_cancel _ _) (Nat.add_sub_cancel _ _)

theorem amount_bounded (counters : Counters) : Bounded counters.amount :=
  ⟨counters.subscriptionRequests.toNat_lt, counters.ruleConversions.toNat_lt⟩

theorem fits_of_bounded {target value : Counters} (bounded : Bounded (target.amount + value.amount)) :
    target.Fits value := bounded

theorem geoId_roundtrip (i : Fin kGeoCount) : (UInt16.ofNat i.val).toNat = i.val := by
  have bound := i.isLt
  simp only [kGeoCount, kCountryCount, kChinaRegionCount] at bound
  rw [UInt16.toNat_ofNat']
  omega

theorem sum_filterMap_map {α β : Type} (f : α → Option β) (g : β → Nat × Nat) (xs : List α) :
    ((xs.filterMap f).map g).sum = (xs.map fun x => (f x).elim 0 g).sum := by
  induction xs with
  | nil => rfl
  | cons x xs ih => cases h : f x <;> simp [h, ih]

theorem sum_finRange {n : Nat} (f : Fin n → Nat × Nat) : ((List.finRange n).map f).sum = ∑ i, f i :=
  (Fin.sum_univ_def f).symm

theorem denseToSparse_sum (dense : GeoTable) (id : Fin kGeoCount) :
    ((denseToSparse dense).map fun entry =>
      if entry.id.toNat = id.val then entry.counters.amount else 0).sum = (dense id).amount := by
  unfold denseToSparse
  rw [sum_filterMap_map, sum_finRange, Finset.sum_eq_single id]
  · by_cases vacant : (dense id).empty
    · simp [vacant, (empty_iff_amount _).mp vacant]
    · simp only [vacant, Bool.false_eq_true, if_false, Option.elim_some, geoId_roundtrip, if_true]
  · intro other _ differs
    by_cases vacant : (dense other).empty
    · simp [vacant]
    · simp only [vacant, Bool.false_eq_true, if_false, Option.elim_some, geoId_roundtrip,
        Fin.val_ne_of_ne differs]
  · simp

theorem ofRecord_activeRecord (metric : Metric) (bucket : DenseBucket) :
    metric.ofRecord bucket.activeRecord = metric.ofDense bucket := by
  cases metric with
  | total => rfl
  | geo id => simp only [Metric.ofRecord, DenseBucket.activeRecord, denseToSparse_sum, Metric.ofDense,
      Metric.ofTable]

theorem ofRecord_toRecord (metric : Metric) (bucket : DenseBucket) :
    metric.ofRecord bucket.toRecord = metric.ofDense bucket := by
  rw [← ofRecord_activeRecord, DenseBucket.toRecord]
  split
  · exact Metric.ofRecord_stamp _ _ _
  · rfl

theorem ofAggregate_subtractBucket (metric : Metric) (aggregate : Aggregate) (record : BucketRecord) :
    metric.ofAggregate (subtractBucket aggregate record) =
      metric.ofAggregate aggregate - metric.ofRecord record := by
  cases metric with
  | total => exact amount_subtract _ _
  | geo id =>
    have fold (entries : List GeoCounters) (table : GeoTable) :
        ((entries.foldl (fun geo entry => geo.modify entry.id.toNat (subtract · entry.counters)) table)
          id).amount = (table id).amount -
        (entries.map fun entry => if entry.id.toNat = id.val then entry.counters.amount else 0).sum := by
      induction entries generalizing table with
      | nil => simp
      | cons entry rest ih =>
        simp only [List.foldl_cons, ih, List.map_cons, List.sum_cons, Table.modify_apply]
        by_cases here : id.val = entry.id.toNat
        · simp [here, amount_subtract, tsub_tsub]
        · simp [here, Ne.symm here]
    exact fold record.geo aggregate.geo

theorem ofAggregate_addBucket (metric : Metric) (aggregate : Aggregate) (record : BucketRecord)
    (bounded : Bounded (metric.ofAggregate aggregate + metric.ofRecord record)) :
    metric.ofAggregate (addBucket aggregate record) =
      metric.ofAggregate aggregate + metric.ofRecord record := by
  cases metric with
  | total => exact amount_add _ _ (fits_of_bounded bounded)
  | geo id =>
    have fold (entries : List GeoCounters) (table : GeoTable)
        (bounded : Bounded ((table id).amount + (entries.map fun entry =>
          if entry.id.toNat = id.val then entry.counters.amount else 0).sum)) :
        ((entries.foldl (fun geo entry => geo.modify entry.id.toNat (add · entry.counters)) table)
          id).amount = (table id).amount +
        (entries.map fun entry => if entry.id.toNat = id.val then entry.counters.amount else 0).sum := by
      induction entries generalizing table with
      | nil => simp
      | cons entry rest ih =>
        simp only [List.map_cons, List.sum_cons] at bounded
        have first : ((table.modify entry.id.toNat (add · entry.counters)) id).amount =
            (table id).amount + if entry.id.toNat = id.val then entry.counters.amount else 0 := by
          by_cases here : id.val = entry.id.toNat
          · have fits : (table id).Fits entry.counters := by
              apply fits_of_bounded
              rw [if_pos here.symm, ← add_assoc] at bounded
              exact bounded.of_le (le_add_amount _ _)
            simp [Table.modify_apply, here, amount_add _ _ fits]
          · simp [Table.modify_apply, here, Ne.symm here]
        simp only [List.foldl_cons, List.map_cons, List.sum_cons]
        rw [ih _ (by rw [first, add_assoc]; exact bounded), first, add_assoc]
    exact fold record.geo aggregate.geo bounded

theorem slotIndex_cast {count : Nat} {stamp : Int} (nonneg : 0 ≤ stamp) (positive : 0 < count)
    (small : count < 2 ^ 63) : (slotIndex count stamp : Int) = stamp % count := by
  have remainder : stamp.tmod count = stamp % count := Int.tmod_eq_emod_of_nonneg nonneg
  have low : 0 ≤ stamp % (count : Int) := Int.emod_nonneg _ (by omega)
  have high : stamp % (count : Int) < count := Int.emod_lt_of_pos _ (by omega)
  have inside : stamp % (count : Int) % 2 ^ 64 = stamp % count := Int.emod_eq_of_lt low (by omega)
  rw [slotIndex, sizeCast, remainder, inside, Int.toNat_of_nonneg low]

theorem slotIndex_lt {count : Nat} {stamp : Int} (nonneg : 0 ≤ stamp) (positive : 0 < count)
    (small : count < 2 ^ 63) : slotIndex count stamp < count := by
  have cast := slotIndex_cast nonneg positive small
  have high : stamp % (count : Int) < count := Int.emod_lt_of_pos _ (by omega)
  omega

namespace BucketRing

variable {slots windowCount : Nat} {sizes : Fin windowCount → Int}

def stamps (ring : BucketRing slots windowCount) : Fin slots → Int := fun j => (ring.sealedBuckets j).stamp

-- The sum over the retained buckets, the sealed ones and the current one, stamped in `(low, high]`.
def retainedSum (ring : BucketRing slots windowCount) (metric : Metric) (low high : Int) : Nat × Nat :=
  windowSum ring.stamps (fun j => metric.ofRecord (ring.sealedBuckets j)) low high +
    if low < ring.current.stamp ∧ ring.current.stamp ≤ high then metric.ofDense ring.current else 0

def WindowLaw (sizes : Fin windowCount → Int) (ring : BucketRing slots windowCount) : Prop :=
  ∀ i metric, metric.ofAggregate (ring.windows i) =
    ring.retainedSum metric (ring.current.stamp - sizes i) ring.current.stamp

structure Tidy (ring : BucketRing slots windowCount) : Prop where
  positive : 0 < ring.current.stamp
  placed : Placed ring.stamps ring.current.stamp
  coherent : ring.current.counters.empty = true → ∀ metric : Metric, metric.ofDense ring.current = 0

def Proper (slots : Nat) (sizes : Fin windowCount → Int) : Prop :=
  slots < 2 ^ 63 ∧ ∀ i, 1 < sizes i ∧ sizes i ≤ slots

theorem step_sealedBuckets (ring : BucketRing slots windowCount) (positive : 0 < ring.current.stamp) :
    (ring.step sizes).sealedBuckets =
      ring.sealedBuckets.set (slotIndex slots ring.current.stamp) ring.current.toRecord := by
  simp [step, sealCurrent, expire, not_le.mpr positive]

theorem step_windows (ring : BucketRing slots windowCount) :
    (ring.step sizes).windows = (ring.expire sizes (ring.current.stamp + 1)).windows := by
  simp only [step, sealCurrent]
  split <;> rfl

@[simp] theorem step_current (ring : BucketRing slots windowCount) :
    (ring.step sizes).current = { stamp := ring.current.stamp + 1 } := rfl

theorem toRecord_stamp (bucket : DenseBucket) :
    (bucket.toRecord.stamp = bucket.stamp ∧ bucket.counters.empty = false) ∨
      (bucket.toRecord.stamp = 0 ∧ bucket.counters.empty = true) := by
  by_cases vacant : bucket.counters.empty
  · exact .inr ⟨by simp [DenseBucket.toRecord, BucketRecord.empty, DenseBucket.activeRecord, vacant], vacant⟩
  · refine .inl ⟨?_, by simpa using vacant⟩
    simp [DenseBucket.toRecord, BucketRecord.empty, DenseBucket.activeRecord, vacant]

theorem step_stamps (ring : BucketRing slots windowCount) (positive : 0 < ring.current.stamp) :
    (ring.step sizes).stamps = fun j =>
      if j.val = slotIndex slots ring.current.stamp then ring.current.toRecord.stamp else ring.stamps j := by
  funext j
  simp only [stamps, step_sealedBuckets ring positive, Table.set_apply]
  split <;> rfl

theorem step_tidy (ring : BucketRing slots windowCount) (nonempty : 0 < slots) (small : slots < 2 ^ 63)
    (tidy : ring.Tidy) : (ring.step sizes).Tidy where
  positive := by
    have positive := tidy.positive
    simp only [step_current]
    omega
  placed := by
    rw [step_stamps ring tidy.positive]
    apply tidy.placed.set tidy.positive
    · exact (slotIndex_cast tidy.positive.le nonempty small).symm
    · rcases toRecord_stamp ring.current with h | h
      · exact .inl h.1
      · exact .inr h.1
  coherent := by
    intro _ metric
    exact metric.ofTable_zero

theorem step_law (ring : BucketRing slots windowCount) (proper : Proper slots sizes)
    (started : ∀ i, sizes i ≤ ring.current.stamp) (tidy : ring.Tidy) (law : ring.WindowLaw sizes) :
    (ring.step sizes).WindowLaw sizes := by
  intro i metric
  have wide := (proper.2 i).1
  have narrow := (proper.2 i).2
  have enough := started i
  have nonempty : 0 < slots := by omega
  -- `written` is the slot the current bucket is sealed into, `leaving` the one of the expiring stamp.
  let written : Fin slots := ⟨slotIndex slots ring.current.stamp,
    slotIndex_lt tidy.positive.le nonempty proper.1⟩
  let leaving : Fin slots := ⟨slotIndex slots (ring.current.stamp + 1 - sizes i),
    slotIndex_lt (by omega) nonempty proper.1⟩
  have writtenResidue : ring.current.stamp % slots = (written.val : Int) :=
    (slotIndex_cast tidy.positive.le nonempty proper.1).symm
  have leavingResidue : (ring.current.stamp + 1 - sizes i) % slots = (leaving.val : Int) :=
    (slotIndex_cast (by omega) nonempty proper.1).symm
  have choice : ring.current.toRecord.stamp = ring.current.stamp ∨
      (ring.current.toRecord.stamp = 0 ∧ metric.ofDense ring.current = 0) := by
    rcases toRecord_stamp ring.current with h | h
    · exact .inl h.1
    · exact .inr ⟨h.1, tidy.coherent h.2 metric⟩
  have slide := windowSum_slide (fun j => metric.ofRecord (ring.sealedBuckets j))
    tidy.placed wide narrow enough writtenResidue leavingResidue choice
  have sums : (fun j => metric.ofRecord ((ring.step sizes).sealedBuckets j)) = fun j =>
      if j.val = written.val then metric.ofDense ring.current else metric.ofRecord (ring.sealedBuckets j) := by
    funext j
    rw [step_sealedBuckets ring tidy.positive, Table.set_apply, ← ofRecord_toRecord]
    split <;> rfl
  have zero : metric.ofDense { stamp := ring.current.stamp + 1 } = 0 := metric.ofTable_zero
  have before : metric.ofAggregate (ring.windows i) =
      windowSum ring.stamps (fun j => metric.ofRecord (ring.sealedBuckets j))
        (ring.current.stamp - sizes i) ring.current.stamp + metric.ofDense ring.current := by
    rw [law i metric, retainedSum, if_pos (by omega)]
  have after : (ring.step sizes).retainedSum metric (ring.current.stamp + 1 - sizes i)
      (ring.current.stamp + 1) = windowSum (fun j =>
        if j.val = written.val then ring.current.toRecord.stamp else ring.stamps j)
        (fun j => if j.val = written.val then metric.ofDense ring.current
          else metric.ofRecord (ring.sealedBuckets j))
        (ring.current.stamp + 1 - sizes i) (ring.current.stamp + 1) := by
    rw [retainedSum, step_stamps ring tidy.positive, sums, step_current, zero, ite_self, add_zero]
  have read : ring.sealedBuckets.getD (slotIndex slots (ring.current.stamp + 1 - sizes i)) {} =
      ring.sealedBuckets leaving := Table.getD_of_lt _ _ leaving.isLt
  rw [step_current, after, step_windows]
  simp only [expire, read]
  split
  · rename_i expired
    have sameStamp : ring.stamps leaving = ring.current.stamp + 1 - sizes i := expired
    rw [if_pos sameStamp] at slide
    rw [ofAggregate_subtractBucket, before, ← slide, add_sub_amount]
  · rename_i fresh
    have otherStamp : ¬ ring.stamps leaving = ring.current.stamp + 1 - sizes i := fresh
    rw [if_neg otherStamp, add_zero] at slide
    rw [before, ← slide]

structure Exact (sizes : Fin windowCount → Int) (ring : BucketRing slots windowCount) : Prop where
  started : ∀ i, sizes i ≤ ring.current.stamp
  tidy : ring.Tidy
  law : ring.WindowLaw sizes

theorem step_exact (ring : BucketRing slots windowCount) (nonempty : 0 < slots) (proper : Proper slots sizes)
    (exact : ring.Exact sizes) : (ring.step sizes).Exact sizes where
  started := by
    intro i
    have enough := exact.started i
    simp only [step_current]
    omega
  tidy := step_tidy ring nonempty proper.1 exact.tidy
  law := step_law ring proper exact.started exact.tidy exact.law

theorem iterate_step_stamp (ring : BucketRing slots windowCount) (turns : Nat) :
    ((step sizes)^[turns] ring).current.stamp = ring.current.stamp + turns := by
  induction turns with
  | zero => simp
  | succ turns ih =>
    rw [Function.iterate_succ_apply', step_current, ih]
    push_cast
    ring

theorem clear_tidy (ring : BucketRing slots windowCount) {target : Int} (positive : 0 < target) :
    (ring.clear target).Tidy where
  positive := positive
  placed := fun _ => .inl rfl
  coherent := fun _ metric => metric.ofTable_zero

theorem clear_exact (ring : BucketRing slots windowCount) {target : Int} (positive : 0 < target)
    (started : ∀ i, sizes i ≤ target) : (ring.clear target).Exact sizes where
  started := started
  tidy := clear_tidy ring positive
  law := by
    intro i metric
    have noSealed : windowSum (ring.clear target).stamps
        (fun j => metric.ofRecord ((ring.clear target).sealedBuckets j)) (target - sizes i) target = 0 := by
      unfold windowSum
      apply Finset.sum_eq_zero
      intro j _
      simp [clear, Metric.ofRecord_default]
    have noCurrent : metric.ofDense (ring.clear target).current = 0 := metric.ofTable_zero
    change metric.ofTable {} (fun _ => {}) = (ring.clear target).retainedSum metric (target - sizes i) target
    rw [retainedSum, noSealed, noCurrent, ite_self, metric.ofTable_zero, add_zero]

theorem advance_current (ring : BucketRing slots windowCount) (target : Int) :
    (ring.advance sizes target).current.stamp = max target ring.current.stamp := by
  unfold advance
  split
  · omega
  · split
    · simp only [clear]
      omega
    · rw [iterate_step_stamp]
      omega

theorem advance_exact (ring : BucketRing slots windowCount) (nonempty : 0 < slots)
    (proper : Proper slots sizes) (target : Int) (exact : ring.Exact sizes) :
    (ring.advance sizes target).Exact sizes := by
  have positive := exact.tidy.positive
  unfold advance
  split
  · exact exact
  · split
    · apply clear_exact ring (by omega)
      intro i
      have enough := exact.started i
      omega
    · exact Function.Iterate.rec _ exact (fun ring exact => step_exact ring nonempty proper exact) _

-- The request that `count` adds, seen as a bucket of its own.
def request (value : Counters) (ids : List GeoId) : BucketRecord where
  counters := value
  geo := ids.map fun id => { id, counters := value }

def Room (counters : Counters) (geo : GeoTable) (record : BucketRecord) : Prop :=
  ∀ metric : Metric, Bounded (metric.ofTable counters geo + metric.ofRecord record)

def CountFits (ring : BucketRing slots windowCount) (value : Counters) (ids : List GeoId) : Prop :=
  Room ring.current.counters ring.current.geo (request value ids) ∧
    ∀ i, Room (ring.windows i).counters (ring.windows i).geo (request value ids)

theorem count_windows (ring : BucketRing slots windowCount) (value : Counters) (ids : List GeoId)
    (i : Fin windowCount) :
    (ring.count value ids).windows i = addBucket (ring.windows i) (request value ids) := by
  simp [count, addBucket, request, List.foldl_map]

theorem count_current (ring : BucketRing slots windowCount) (value : Counters) (ids : List GeoId)
    (metric : Metric) (room : Room ring.current.counters ring.current.geo (request value ids)) :
    metric.ofDense (ring.count value ids).current =
      metric.ofDense ring.current + metric.ofRecord (request value ids) := by
  have added := ofAggregate_addBucket metric ⟨ring.current.counters, ring.current.geo⟩
    (request value ids) (room metric)
  simpa [Metric.ofAggregate, Metric.ofDense, addBucket, count, request, List.foldl_map] using added

theorem count_tidy (ring : BucketRing slots windowCount) (value : Counters) (ids : List GeoId)
    (counted : value.subscriptionRequests = 1) (tidy : ring.Tidy) : (ring.count value ids).Tidy where
  positive := tidy.positive
  placed := tidy.placed
  coherent := by
    intro vacant
    have counted : (ring.count value ids).current.counters.empty = false :=
      add_request_not_empty ring.current.counters value counted
    rw [vacant] at counted
    contradiction

theorem count_exact (ring : BucketRing slots windowCount) (proper : Proper slots sizes)
    (value : Counters) (ids : List GeoId) (counted : value.subscriptionRequests = 1)
    (fits : ring.CountFits value ids) (exact : ring.Exact sizes) :
    (ring.count value ids).Exact sizes where
  started := exact.started
  tidy := count_tidy ring value ids counted exact.tidy
  law := by
    intro i metric
    have wide := (proper.2 i).1
    have inside : ring.current.stamp - sizes i < ring.current.stamp ∧
        ring.current.stamp ≤ ring.current.stamp := by omega
    have before := exact.law i metric
    rw [retainedSum, if_pos inside] at before
    have sum : (ring.count value ids).retainedSum metric (ring.current.stamp - sizes i) ring.current.stamp =
        windowSum ring.stamps (fun j => metric.ofRecord (ring.sealedBuckets j))
          (ring.current.stamp - sizes i) ring.current.stamp +
        metric.ofDense (ring.count value ids).current := by
      rw [retainedSum]
      exact congrArg _ (if_pos inside)
    change _ = (ring.count value ids).retainedSum metric (ring.current.stamp - sizes i) ring.current.stamp
    rw [sum, count_current _ _ _ _ fits.1, count_windows,
      ofAggregate_addBucket metric _ _ (fits.2 i metric), before, add_assoc]

end BucketRing

end SubConverter.Statistics
