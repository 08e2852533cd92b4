import SubConverter.Statistics.Windows

set_option autoImplicit false

namespace SubConverter.Statistics

open RollingWindow

-- What the hourly series shows for `hour`.
def hourReading (hours : Table 24 HourBucket) (hour : Int) : Nat × Nat :=
  let slot := hours.getD (slotIndex 24 hour) {}
  if slot.hour = hour then slot.counters.amount else 0

structure HoursAgree (hours : Table 24 HourBucket) (sums : Int → Nat × Nat) (current : Int) : Prop where
  past : ∀ i, (hours i).hour ≤ current
  reading : ∀ hour, current - 23 ≤ hour → hour ≤ current → hourReading hours hour = sums hour

def hourSlot {hour : Int} (nonneg : 0 ≤ hour) : Fin 24 :=
  ⟨slotIndex 24 hour, slotIndex_lt nonneg (by decide) (by decide)⟩

@[simp] theorem hourSlot_val {hour : Int} (nonneg : 0 ≤ hour) :
    (hourSlot nonneg).val = slotIndex 24 hour := rfl

theorem hourReading_eq (hours : Table 24 HourBucket) {hour : Int} (nonneg : 0 ≤ hour) :
    hourReading hours hour =
      if (hours (hourSlot nonneg)).hour = hour then (hours (hourSlot nonneg)).counters.amount else 0 := by
  have read : hours.getD (slotIndex 24 hour) {} = hours (hourSlot nonneg) :=
    Table.getD_of_lt hours {} (hourSlot nonneg).isLt
  simp only [hourReading, read]

theorem slotIndex_hour_inj {left right : Int} (leftNonneg : 0 ≤ left) (rightNonneg : 0 ≤ right)
    (near : left ≤ right) (close : right ≤ left + 23) (same : slotIndex 24 left = slotIndex 24 right) :
    left = right := by
  have leftCast := slotIndex_cast leftNonneg (by omega : 0 < 24) (by omega)
  have rightCast := slotIndex_cast rightNonneg (by omega : 0 < 24) (by omega)
  omega

theorem advanceHours_apply (hours : Table 24 HourBucket) (target : Int) (i : Fin 24) :
    Core.advanceHours hours target i =
      if i.val = slotIndex 24 target ∧ (hours i).hour ≠ target then { hour := target } else hours i := by
  simp only [Core.advanceHours, Table.modify_apply]
  by_cases here : i.val = slotIndex 24 target <;> simp [here]

theorem HoursAgree.advance {hours : Table 24 HourBucket} {sums : Int → Nat × Nat} {current target : Int}
    (agree : HoursAgree hours sums current) (late : 23 ≤ current) (forward : current ≤ target)
    (future : ∀ hour, current < hour → sums hour = 0) :
    HoursAgree (Core.advanceHours hours target) sums target where
  past := by
    intro i
    have old := agree.past i
    rw [advanceHours_apply]
    split
    · exact le_rfl
    · omega
  reading := by
    intro hour low high
    have nonneg : 0 ≤ hour := by omega
    rw [hourReading_eq _ nonneg, advanceHours_apply]
    by_cases newest : hour = target
    · subst newest
      by_cases same : current = hour
      · subst same
        have old := agree.reading current (by omega) le_rfl
        rw [hourReading_eq _ nonneg] at old
        split
        · rename_i replaced
          simpa [replaced.2] using old
        · exact old
      · -- The slot still holds an hour of the day before, so it is replaced by an empty one.
        have stale := agree.past (hourSlot nonneg)
        have differs : (hours (hourSlot nonneg)).hour ≠ hour := by
          omega
        rw [future hour (by omega)]
        simp [differs]
    · have elsewhere : slotIndex 24 hour ≠ slotIndex 24 target := by
        intro same
        exact newest (slotIndex_hour_inj nonneg (by omega) high (by omega) same)
      have kept : ¬ ((hourSlot nonneg).val = slotIndex 24 target ∧ (hours (hourSlot nonneg)).hour ≠ target) :=
        fun both => elsewhere both.1
      rw [if_neg kept]
      by_cases known : hour ≤ current
      · have old := agree.reading hour (by omega) known
        rw [hourReading_eq _ nonneg] at old
        exact old
      · have stale := agree.past (hourSlot nonneg)
        rw [future hour (by omega)]
        exact if_neg (by omega)

theorem HoursAgree.clear {sums : Int → Nat × Nat} {current : Int} (late : 23 < current)
    (none : ∀ hour, sums hour = 0) : HoursAgree (fun _ => {}) sums current where
  past := by
    intro i
    change 0 ≤ current
    omega
  reading := by
    intro hour low high
    rw [hourReading_eq _ (by omega), none hour]
    exact if_neg (show (0 : Int) ≠ hour by omega)

theorem HoursAgree.count {hours : Table 24 HourBucket} {sums more : Int → Nat × Nat} {current : Int}
    {value : Counters} (agree : HoursAgree hours sums current) (late : 23 ≤ current)
    (future : ∀ hour, current < hour → sums hour = 0)
    (room : Bounded (sums current + value.amount)) (counted : more current = sums current + value.amount)
    (others : ∀ hour, hour ≠ current → more hour = sums hour) :
    HoursAgree ((Core.advanceHours hours current).modify (slotIndex 24 current) fun slot =>
      { slot with counters := add slot.counters value }) more current where
  past := by
    intro i
    have old := (agree.advance late le_rfl future).past i
    rw [Table.modify_apply]
    split <;> exact old
  reading := by
    intro hour low high
    have nonneg : 0 ≤ hour := by omega
    have old := (agree.advance late le_rfl future).reading hour low high
    rw [hourReading_eq _ nonneg] at old ⊢
    rw [Table.modify_apply]
    by_cases newest : hour = current
    · subst newest
      have present : (Core.advanceHours hours hour
          (hourSlot nonneg)).hour = hour := by
        rw [advanceHours_apply]
        split
        · rfl
        · rename_i kept
          by_contra differs
          exact kept ⟨rfl, differs⟩
      simp only [present, if_true] at old ⊢
      have fits : (Core.advanceHours hours hour (hourSlot nonneg)).counters.Fits value := by
        apply fits_of_bounded
        rw [old]
        exact room
      simp only [hourSlot_val, if_true, amount_add _ _ fits, old, counted]
    · have elsewhere : slotIndex 24 hour ≠ slotIndex 24 current := by
        intro same
        exact newest (slotIndex_hour_inj nonneg (by omega) high (by omega) same)
      simp only [others hour newest, ← old, hourSlot_val, elsewhere, if_false]

namespace BucketRing

variable {slots windowCount : Nat} {sizes : Fin windowCount → Int}

def hourSum (ring : BucketRing slots windowCount) (hour : Int) : Nat × Nat :=
  ring.retainedSum .total (60 * hour - 1) (60 * hour + 59)

theorem retainedSum_step (ring : BucketRing slots windowCount) (nonempty : 0 < slots)
    (small : slots < 2 ^ 63) (tidy : ring.Tidy) (metric : Metric) {low high : Int}
    (recent : ring.current.stamp - slots ≤ low) (nonneg : 0 ≤ low) :
    (ring.step sizes).retainedSum metric low high = ring.retainedSum metric low high := by
  have positive := tidy.positive
  let written : Fin slots := ⟨slotIndex slots ring.current.stamp, slotIndex_lt positive.le nonempty small⟩
  have residue : ring.current.stamp % slots = (written.val : Int) :=
    (slotIndex_cast positive.le nonempty small).symm
  have stale := stale_of_residue tidy.placed residue
  have zero : metric.ofDense (ring.step sizes).current = 0 := metric.ofTable_zero
  have sealedNow : (if low < ring.current.stamp ∧ ring.current.stamp ≤ high then
      metric.ofDense ring.current else 0) =
      if low < ring.current.toRecord.stamp ∧ ring.current.toRecord.stamp ≤ high then
        metric.ofDense ring.current else 0 := by
    rcases toRecord_stamp ring.current with ⟨same, _⟩ | ⟨_, vacant⟩
    · rw [same]
    · simp [tidy.coherent vacant metric]
  have pointwise (j : Fin slots) :
      (if low < (ring.step sizes).stamps j ∧ (ring.step sizes).stamps j ≤ high then
        metric.ofRecord ((ring.step sizes).sealedBuckets j) else 0) =
      (if low < ring.stamps j ∧ ring.stamps j ≤ high then metric.ofRecord (ring.sealedBuckets j) else 0) +
        if j = written then (if low < ring.current.toRecord.stamp ∧ ring.current.toRecord.stamp ≤ high then
          metric.ofDense ring.current else 0) else 0 := by
    rw [step_stamps ring positive, step_sealedBuckets ring positive, Table.set_apply]
    by_cases here : j = written
    · subst here
      have outside : ¬ (low < ring.stamps written ∧ ring.stamps written ≤ high) := by omega
      simp only [written, if_true, ofRecord_toRecord]
      rw [if_neg outside, zero_add]
    · have differs : j.val ≠ slotIndex slots ring.current.stamp := fun same => here (Fin.ext same)
      simp [differs, here]
  simp only [retainedSum, windowSum]
  rw [Finset.sum_congr rfl fun j _ => pointwise j, Finset.sum_add_distrib, zero, ite_self, add_zero, sealedNow]
  simp

theorem hourSum_future (ring : BucketRing slots windowCount) (tidy : ring.Tidy) (hour : Int)
    (future : ring.current.stamp.tdiv 60 < hour) : ring.hourSum hour = 0 := by
  have positive := tidy.positive
  have hours : ring.current.stamp.tdiv 60 = ring.current.stamp / 60 := Int.tdiv_eq_ediv_of_nonneg positive.le
  have noSealed : windowSum ring.stamps (fun j => Metric.total.ofRecord (ring.sealedBuckets j))
      (60 * hour - 1) (60 * hour + 59) = 0 := by
    apply windowSum_eq_zero
    intro j
    rcases tidy.placed j with vacant | ⟨_, past, _⟩ <;> omega
  rw [hourSum, retainedSum, noSealed, if_neg (by omega), add_zero]

end BucketRing

end SubConverter.Statistics
