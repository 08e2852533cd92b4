import SubConverter.Statistics.Hours

set_option autoImplicit false

namespace SubConverter.Statistics

open RollingWindow

/-- The calls that drive a `Core` between two restarts. -/
inductive Call where
  | record (now : Int) (country chinaRegion : GeoId) (ruleConversions : UInt64)
  | dashboardSnapshot (now : Int)

namespace Core

def request (ruleConversions : UInt64) : Counters := { subscriptionRequests := 1, ruleConversions }

def call (core : Core) : Call → Core
  | .record now country chinaRegion ruleConversions => core.record now country chinaRegion ruleConversions
  | .dashboardSnapshot now => (core.dashboardSnapshot now).2

def run (core : Core) (calls : List Call) : Core := calls.foldl call core

-- No counter of the rings or of the hourly series saturates in this call.
def CallFits (core : Core) : Call → Prop
  | .record now country chinaRegion ruleConversions =>
    let core := core.advanceTo now
    let ids := geoIds country chinaRegion
    core.minutes.CountFits (request ruleConversions) ids ∧ core.days.CountFits (request ruleConversions) ids ∧
      Bounded (hourReading core.hours (core.minutes.current.stamp.tdiv 60) + (request ruleConversions).amount)
  | .dashboardSnapshot _ => True

def RunFits (core : Core) : List Call → Prop
  | [] => True
  | call :: rest => core.CallFits call ∧ RunFits (core.call call) rest

def WindowLaws (core : Core) : Prop :=
  core.minutes.WindowLaw kMinuteWindowSizes ∧ core.days.WindowLaw kDailyWindowSizes

def SeriesLaw (core : Core) (now : Int) : Prop :=
  ∀ i : Fin 24, ((core.snapshot now).series i).counters.amount =
    core.minutes.hourSum (core.minutes.current.stamp.tdiv 60 - 23 + i.val)

structure Exact (core : Core) : Prop where
  minutes : core.minutes.Exact kMinuteWindowSizes
  days : core.days.Exact kDailyWindowSizes

structure HoursExact (core : Core) : Prop where
  late : 24 * 60 ≤ core.minutes.current.stamp
  tidy : core.minutes.Tidy
  hours : HoursAgree core.hours core.minutes.hourSum (core.minutes.current.stamp.tdiv 60)

theorem minuteSizes_proper : BucketRing.Proper kMinuteBucketCount kMinuteWindowSizes := by
  refine ⟨by decide, ?_⟩
  intro i
  fin_cases i <;> decide

theorem dailySizes_proper : BucketRing.Proper kDailyBucketCount kDailyWindowSizes := by
  refine ⟨by decide, ?_⟩
  intro i
  fin_cases i <;> decide

theorem minuteCount_pos : 0 < kMinuteBucketCount := by decide

theorem dailyCount_pos : 0 < kDailyBucketCount := by decide

theorem iterate_stepMinute_minutes (core : Core) (turns : Nat) :
    (stepMinute^[turns] core).minutes = (BucketRing.step kMinuteWindowSizes)^[turns] core.minutes := by
  induction turns with
  | zero => rfl
  | succ turns ih => simp only [Function.iterate_succ_apply', stepMinute, ih]

theorem iterate_stepMinute_days (core : Core) (turns : Nat) :
    (stepMinute^[turns] core).days = core.days := by
  induction turns with
  | zero => rfl
  | succ turns ih => simp only [Function.iterate_succ_apply', stepMinute, ih]

@[simp] theorem advanceMinutes_minutes (core : Core) (target : Int) :
    (core.advanceMinutes target).minutes = core.minutes.advance kMinuteWindowSizes target := by
  unfold advanceMinutes BucketRing.advance
  split
  · rfl
  · split
    · rfl
    · exact iterate_stepMinute_minutes core _

@[simp] theorem advanceMinutes_days (core : Core) (target : Int) :
    (core.advanceMinutes target).days = core.days := by
  unfold advanceMinutes
  split
  · rfl
  · split
    · rfl
    · exact iterate_stepMinute_days core _

@[simp] theorem advanceTo_minutes (core : Core) (now : Int) :
    (core.advanceTo now).minutes = core.minutes.advance kMinuteWindowSizes (now.tdiv 60) := by
  simp only [advanceTo, advanceDays]
  split <;> exact advanceMinutes_minutes core _

@[simp] theorem advanceTo_days (core : Core) (now : Int) :
    (core.advanceTo now).days = core.days.advance kDailyWindowSizes (now.tdiv (24 * 60 * 60)) := by
  simp only [advanceTo, advanceDays]
  split <;> exact congrArg (BucketRing.advance kDailyWindowSizes · _) (advanceMinutes_days core _)

theorem advanceTo_hours (core : Core) (now : Int) :
    (core.advanceTo now).hours = advanceHours (core.advanceMinutes (now.tdiv 60)).hours
      ((core.advanceTo now).minutes.current.stamp.tdiv 60) := by
  have current : (core.advanceTo now).minutes.current.stamp =
      max (now.tdiv 60) (core.advanceMinutes (now.tdiv 60)).minutes.current.stamp := by
    rw [advanceTo_minutes, advanceMinutes_minutes, BucketRing.advance_current]
    omega
  rw [current]
  simp only [advanceTo, advanceDays]
  split <;> rfl

theorem stepMinute_hoursExact (core : Core) (exact : core.HoursExact) : core.stepMinute.HoursExact where
  late := by
    have late := exact.late
    simp only [stepMinute, BucketRing.step_current]
    omega
  tidy := BucketRing.step_tidy core.minutes minuteCount_pos minuteSizes_proper.1 exact.tidy
  hours := by
    have late := exact.late
    have positive := exact.tidy.positive
    have now : core.minutes.current.stamp.tdiv 60 = core.minutes.current.stamp / 60 :=
      Int.tdiv_eq_ediv_of_nonneg positive.le
    have next : (core.minutes.current.stamp + 1).tdiv 60 = (core.minutes.current.stamp + 1) / 60 :=
      Int.tdiv_eq_ediv_of_nonneg (by omega)
    have moved := exact.hours.advance (by omega)
      (by omega : core.minutes.current.stamp.tdiv 60 ≤ (core.minutes.current.stamp + 1).tdiv 60)
      (BucketRing.hourSum_future core.minutes exact.tidy)
    refine ⟨moved.past, fun hour low high => (moved.reading hour low high).trans ?_⟩
    change (core.minutes.current.stamp + 1).tdiv 60 - 23 ≤ hour at low
    have slots : (kMinuteBucketCount : Int) = 43200 := rfl
    -- The last 24 hours are far inside the 30 days of the ring, so sealing drops none of them.
    exact (BucketRing.retainedSum_step core.minutes minuteCount_pos minuteSizes_proper.1 exact.tidy .total
      (by omega) (by omega)).symm

theorem advanceMinutes_hoursExact (core : Core) (target : Int) (exact : core.HoursExact) :
    (core.advanceMinutes target).HoursExact := by
  have late := exact.late
  unfold advanceMinutes
  split
  · exact exact
  · split
    · have positive : 0 < target := by omega
      have hour : target.tdiv 60 = target / 60 := Int.tdiv_eq_ediv_of_nonneg positive.le
      have cleared := BucketRing.clear_exact core.minutes positive (fun i : Fin 4 => (show (0 : Int) ≤ target by omega))
      refine ⟨show 24 * 60 ≤ target by omega, cleared.tidy, HoursAgree.clear ?_ ?_⟩
      · change 23 < target.tdiv 60
        omega
      · intro hour
        have sealedSum : windowSum (core.minutes.clear target).stamps
            (fun j => Metric.total.ofRecord ((core.minutes.clear target).sealedBuckets j))
            (60 * hour - 1) (60 * hour + 59) = 0 := Finset.sum_eq_zero fun j _ => ite_self 0
        have currentSum : Metric.total.ofDense (core.minutes.clear target).current = 0 := rfl
        change BucketRing.retainedSum _ _ _ _ = 0
        rw [BucketRing.retainedSum, sealedSum, currentSum, ite_self, add_zero]
    · exact Function.Iterate.rec _ exact (fun core exact => stepMinute_hoursExact core exact) _

theorem advanceTo_hoursExact (core : Core) (now : Int) (exact : core.HoursExact) :
    (core.advanceTo now).HoursExact := by
  have moved := advanceMinutes_hoursExact core (now.tdiv 60) exact
  have late := moved.late
  have minutes : (core.advanceTo now).minutes = (core.advanceMinutes (now.tdiv 60)).minutes := by
    rw [advanceTo_minutes, advanceMinutes_minutes]
  refine ⟨by rw [minutes]; exact moved.late, by rw [minutes]; exact moved.tidy, ?_⟩
  have hour := Int.tdiv_eq_ediv_of_nonneg (b := 60) moved.tidy.positive.le
  rw [advanceTo_hours, minutes]
  exact moved.hours.advance (by omega) le_rfl (BucketRing.hourSum_future _ moved.tidy)

theorem advanceTo_exact (core : Core) (now : Int) (exact : core.Exact) : (core.advanceTo now).Exact where
  minutes := by
    rw [advanceTo_minutes]
    exact BucketRing.advance_exact _ minuteCount_pos minuteSizes_proper _ exact.minutes
  days := by
    rw [advanceTo_days]
    exact BucketRing.advance_exact _ dailyCount_pos dailySizes_proper _ exact.days

theorem call_exact (core : Core) (call : Call) (fits : core.CallFits call) (exact : core.Exact) :
    (core.call call).Exact := by
  cases call with
  | dashboardSnapshot now => exact advanceTo_exact core now exact
  | record now country chinaRegion ruleConversions =>
    have moved := advanceTo_exact core now exact
    exact
      { minutes := BucketRing.count_exact _ minuteSizes_proper _ _ rfl fits.1 moved.minutes
        days := BucketRing.count_exact _ dailySizes_proper _ _ rfl fits.2.1 moved.days }

theorem hourSum_count {slots windowCount : Nat} (ring : BucketRing slots windowCount) (value : Counters)
    (ids : List GeoId) (hour : Int) (positive : 0 < ring.current.stamp)
    (room : BucketRing.Room ring.current.counters ring.current.geo (BucketRing.request value ids)) :
    (ring.count value ids).hourSum hour =
      ring.hourSum hour + if hour = ring.current.stamp.tdiv 60 then value.amount else 0 := by
  have now : ring.current.stamp.tdiv 60 = ring.current.stamp / 60 := Int.tdiv_eq_ediv_of_nonneg positive.le
  have current := BucketRing.count_current ring value ids .total room
  have inside : (60 * hour - 1 < ring.current.stamp ∧ ring.current.stamp ≤ 60 * hour + 59) ↔
      hour = ring.current.stamp.tdiv 60 := by omega
  have before : ring.hourSum hour = windowSum ring.stamps
      (fun j => Metric.total.ofRecord (ring.sealedBuckets j)) (60 * hour - 1) (60 * hour + 59) +
      if hour = ring.current.stamp.tdiv 60 then Metric.total.ofDense ring.current else 0 := by
    simp only [BucketRing.hourSum, BucketRing.retainedSum, inside]
  have after : (ring.count value ids).hourSum hour = windowSum ring.stamps
      (fun j => Metric.total.ofRecord (ring.sealedBuckets j)) (60 * hour - 1) (60 * hour + 59) +
      if hour = ring.current.stamp.tdiv 60 then Metric.total.ofDense (ring.count value ids).current else 0 := by
    change windowSum ring.stamps (fun j => Metric.total.ofRecord (ring.sealedBuckets j)) _ _ +
      (if 60 * hour - 1 < ring.current.stamp ∧ ring.current.stamp ≤ 60 * hour + 59 then
        Metric.total.ofDense (ring.count value ids).current else 0) = _
    simp only [inside]
  rw [after, before, current, add_assoc]
  split
  · rfl
  · rw [add_zero]
    rfl

theorem call_hoursExact (core : Core) (call : Call) (fits : core.CallFits call) (exact : core.HoursExact) :
    (core.call call).HoursExact := by
  cases call with
  | dashboardSnapshot now => exact advanceTo_hoursExact core now exact
  | record now country chinaRegion ruleConversions =>
    have moved := advanceTo_hoursExact core now exact
    have late := moved.late
    have hour := Int.tdiv_eq_ediv_of_nonneg (b := 60) moved.tidy.positive.le
    have counted (hour : Int) := hourSum_count (core.advanceTo now).minutes (request ruleConversions)
      (geoIds country chinaRegion) hour moved.tidy.positive fits.1.1
    refine ⟨moved.late, BucketRing.count_tidy _ _ _ rfl moved.tidy, ?_⟩
    have room := fits.2.2
    rw [moved.hours.reading _ (by omega) le_rfl] at room
    refine moved.hours.count (by omega) (BucketRing.hourSum_future _ moved.tidy) room ?_ ?_
    · refine (counted _).trans ?_
      rw [if_pos rfl]
      rfl
    · intro other differs
      exact (counted other).trans (by rw [if_neg differs, add_zero])

theorem startEmpty_exact {now : Int} (late : 366 * (24 * 60 * 60) ≤ now) : (startEmpty now).Exact where
  minutes := by
    have stamp : now.tdiv 60 = now / 60 := Int.tdiv_eq_ediv_of_nonneg (by omega)
    have fresh : (({} : BucketRing kMinuteBucketCount 4).clear (now.tdiv 60)).Exact kMinuteWindowSizes := by
      apply BucketRing.clear_exact
      · omega
      · intro i
        have size : kMinuteWindowSizes i ≤ 43200 := (minuteSizes_proper.2 i).2
        omega
    exact ⟨fresh.started, ⟨fresh.tidy.positive, fresh.tidy.placed, fresh.tidy.coherent⟩, fresh.law⟩
  days := by
    have stamp : now.tdiv (24 * 60 * 60) = now / (24 * 60 * 60) := Int.tdiv_eq_ediv_of_nonneg (by omega)
    have fresh : (({} : BucketRing kDailyBucketCount 2).clear (now.tdiv (24 * 60 * 60))).Exact
        kDailyWindowSizes := by
      apply BucketRing.clear_exact
      · omega
      · intro i
        have size : kDailyWindowSizes i ≤ 366 := (dailySizes_proper.2 i).2
        omega
    exact ⟨fresh.started, ⟨fresh.tidy.positive, fresh.tidy.placed, fresh.tidy.coherent⟩, fresh.law⟩

theorem startEmpty_hourSum (now hour : Int) : (startEmpty now).minutes.hourSum hour = 0 := by
  have sealedSum : windowSum (startEmpty now).minutes.stamps
      (fun j => Metric.total.ofRecord ((startEmpty now).minutes.sealedBuckets j))
      (60 * hour - 1) (60 * hour + 59) = 0 := Finset.sum_eq_zero fun j _ => ite_self 0
  have currentSum : Metric.total.ofDense (startEmpty now).minutes.current = 0 := rfl
  rw [BucketRing.hourSum, BucketRing.retainedSum, sealedSum, currentSum, ite_self, add_zero]

theorem startEmpty_hoursExact {now : Int} (late : 366 * (24 * 60 * 60) ≤ now) :
    (startEmpty now).HoursExact where
  late := by
    have stamp : now.tdiv 60 = now / 60 := Int.tdiv_eq_ediv_of_nonneg (by omega)
    change 24 * 60 ≤ now.tdiv 60
    omega
  tidy := (startEmpty_exact late).minutes.tidy
  hours := by
    have stamp : now.tdiv 60 = now / 60 := Int.tdiv_eq_ediv_of_nonneg (by omega)
    have hour : (now.tdiv 60).tdiv 60 = now / 60 / 60 := by
      rw [stamp]
      exact Int.tdiv_eq_ediv_of_nonneg (by omega)
    apply HoursAgree.clear
    · change 23 < (now.tdiv 60).tdiv 60
      omega
    · exact startEmpty_hourSum now

theorem run_exact (core : Core) (calls : List Call) (fits : core.RunFits calls) (exact : core.Exact) :
    (core.run calls).Exact := by
  induction calls generalizing core with
  | nil => exact exact
  | cons call rest ih => exact ih (core.call call) fits.2 (call_exact core call fits.1 exact)

theorem run_hoursExact (core : Core) (calls : List Call) (fits : core.RunFits calls)
    (exact : core.HoursExact) : (core.run calls).HoursExact := by
  induction calls generalizing core with
  | nil => exact exact
  | cons call rest ih => exact ih (core.call call) fits.2 (call_hoursExact core call fits.1 exact)

theorem HoursExact.seriesLaw {core : Core} (exact : core.HoursExact) (now : Int) : core.SeriesLaw now := by
  intro i
  have bound := i.isLt
  have reading := exact.hours.reading (core.minutes.current.stamp.tdiv 60 - 23 + i.val)
    (by omega) (by omega)
  rw [← reading]
  simp only [snapshot, hourReading]
  split <;> rfl

theorem rolling_windows_exact (start : Int) (calls : List Call) (late : 366 * (24 * 60 * 60) ≤ start)
    (fits : (startEmpty start).RunFits calls) :
    ((startEmpty start).run calls).WindowLaws ∧ ∀ now, ((startEmpty start).run calls).SeriesLaw now := by
  have exact := run_exact _ calls fits (startEmpty_exact late)
  have hours := run_hoursExact _ calls fits (startEmpty_hoursExact late)
  exact ⟨⟨exact.minutes.law, exact.days.law⟩, hours.seriesLaw⟩

theorem room_single (value : Counters) (id : GeoId) :
    BucketRing.Room {} (fun _ => {}) (BucketRing.request value [id]) := by
  intro metric
  rw [metric.ofTable_zero, zero_add]
  cases metric with
  | total => exact amount_bounded value
  | geo other =>
    simp only [Metric.ofRecord, BucketRing.request, List.map_cons, List.map_nil, List.sum_cons, List.sum_nil,
      add_zero]
    split
    · exact amount_bounded value
    · exact ⟨by decide, by decide⟩

theorem rolling_windows_exact_one_request :
    (startEmpty 2000000000).RunFits [.record 2000000000 538 kInvalidGeoId 7, .dashboardSnapshot 2000003600] ∧
      ((startEmpty 2000000000).run
        [.record 2000000000 538 kInvalidGeoId 7, .dashboardSnapshot 2000003600]).WindowLaws := by
  have fits : (startEmpty 2000000000).RunFits
      [.record 2000000000 538 kInvalidGeoId 7, .dashboardSnapshot 2000003600] := by
    have ids : geoIds 538 kInvalidGeoId = [538] := by decide
    have minutes : ((startEmpty 2000000000).advanceTo 2000000000).minutes = (startEmpty 2000000000).minutes := by
      rw [advanceTo_minutes]
      exact if_pos le_rfl
    have days : ((startEmpty 2000000000).advanceTo 2000000000).days = (startEmpty 2000000000).days := by
      rw [advanceTo_days]
      exact if_pos le_rfl
    have start : (startEmpty 2000000000).HoursExact := startEmpty_hoursExact (by decide)
    have hours := (advanceTo_hoursExact _ 2000000000 start).hours
    refine ⟨⟨?_, ?_, ?_⟩, trivial, trivial⟩
    · rw [minutes, ids]
      exact ⟨room_single _ _, fun _ => room_single _ _⟩
    · rw [days, ids]
      exact ⟨room_single _ _, fun _ => room_single _ _⟩
    · rw [hours.reading _ (by omega) le_rfl, minutes, startEmpty_hourSum, zero_add]
      exact amount_bounded _
  exact ⟨fits, (rolling_windows_exact 2000000000 _ (by decide) fits).1⟩

end Core

end SubConverter.Statistics
