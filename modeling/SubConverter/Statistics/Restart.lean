import SubConverter.Statistics.Accepted
import SubConverter.Statistics.Runs

set_option autoImplicit false

namespace SubConverter.Statistics

open RollingWindow

namespace BucketRing

variable {slots windowCount : Nat} {sizes : Fin windowCount → Int}

-- The accumulator of the search in `activateLatestBuckets`.
def latestStep (stored : Table slots BucketRecord) (best : Int × Nat) (i : Fin slots) : Int × Nat :=
  if !(stored i).empty && (stored i).stamp > best.1 then ((stored i).stamp, i.val) else best

structure Latest (stored : Table slots BucketRecord) (seen : List (Fin slots)) (best : Int × Nat) : Prop where
  nonneg : 0 ≤ best.1
  found : 0 < best.1 → ∃ i, i.val = best.2 ∧ (stored i).empty = false ∧ (stored i).stamp = best.1
  newest : ∀ i ∈ seen, (stored i).empty = false → (stored i).stamp ≤ best.1

theorem latestStep_latest {stored : Table slots BucketRecord} {seen : List (Fin slots)} {best : Int × Nat}
    (latest : Latest stored seen best) (i : Fin slots) :
    Latest stored (seen ++ [i]) (latestStep stored best i) := by
  have nonneg := latest.nonneg
  unfold latestStep
  split
  · rename_i newer
    simp only [Bool.and_eq_true, Bool.not_eq_true', decide_eq_true_eq] at newer
    refine ⟨by simp only; omega, fun _ => ⟨i, rfl, newer.1, rfl⟩, ?_⟩
    intro j member counted
    rcases List.mem_append.mp member with old | new
    · have bound := latest.newest j old counted
      simp only
      omega
    · rw [List.mem_singleton.mp new]
  · rename_i older
    refine ⟨nonneg, latest.found, ?_⟩
    intro j member counted
    rcases List.mem_append.mp member with old | new
    · exact latest.newest j old counted
    · rw [List.mem_singleton.mp new] at counted ⊢
      simp [counted] at older
      exact older

theorem foldl_latest (stored : Table slots BucketRecord) (todo seen : List (Fin slots)) (best : Int × Nat)
    (latest : Latest stored seen best) :
    Latest stored (seen ++ todo) (todo.foldl (latestStep stored) best) := by
  induction todo generalizing seen best with
  | nil => simpa using latest
  | cons i rest ih =>
    have next := ih (seen ++ [i]) (latestStep stored best i) (latestStep_latest latest i)
    simpa using next

theorem latest_all (stored : Table slots BucketRecord) :
    Latest stored (List.finRange slots) ((List.finRange slots).foldl (latestStep stored) (0, 0)) := by
  have start : Latest stored [] (0, 0) := ⟨le_rfl, fun positive => absurd positive (by simp), by simp⟩
  simpa using foldl_latest stored (List.finRange slots) [] (0, 0) start

theorem activateLatest_eq (ring : BucketRing slots windowCount) (stored : Table slots BucketRecord) :
    ring.activateLatest stored =
      let latest := (List.finRange slots).foldl (latestStep stored) (0, 0)
      if latest.1 > 0 then
        let chosen := stored.getD latest.2 {}
        { ring with
          current :=
            { stamp := latest.1
              counters := chosen.counters
              geo := chosen.geo.foldl (fun geo entry => geo.set entry.id.toNat entry.counters)
                (fun _ => {}) }
          sealedBuckets := stored.set latest.2 {} }
      else { ring with sealedBuckets := stored } := rfl

structure Restored (ring : BucketRing slots windowCount) : Prop where
  tidy : ring.Tidy
  blank : ∀ j, (ring.sealedBuckets j).empty = true → (ring.sealedBuckets j).stamp = 0

theorem slotValid_residue {stored : Table slots BucketRecord} (small : slots < 2 ^ 63) (i : Fin slots)
    (valid : SlotValid slots i.val (stored i)) (counted : (stored i).empty = false) :
    0 < (stored i).stamp ∧ (stored i).stamp % slots = i.val := by
  have bound := i.isLt
  obtain ⟨positive, placed⟩ := valid.placed counted
  have residue := slotIndex_cast positive.le (by omega : 0 < slots) small
  rw [placed] at residue
  exact ⟨positive, residue.symm⟩

theorem vacant_stamp {record : BucketRecord} (normal : record.Normal) (vacant : record.empty = true) :
    record.stamp = 0 := by
  rw [((BucketRecord.normal_iff record).mp normal).1 vacant]

theorem restoreRing_restored (stored : Table slots BucketRecord) (nowStamp : Int) (small : slots < 2 ^ 63)
    (valid : ∀ i, SlotValid slots i.val (stored i)) (normal : ∀ i, (stored i).Normal)
    (positive : 0 < nowStamp) :
    (Core.restoreRing stored nowStamp : BucketRing slots windowCount).Restored := by
  have latest := latest_all stored
  have nonneg := latest.nonneg
  simp only [Core.restoreRing, activateLatest_eq]
  generalize (List.finRange slots).foldl (latestStep stored) (0, 0) = best at latest nonneg ⊢
  by_cases some : best.1 > 0
  · obtain ⟨i, index, counted, stamp⟩ := latest.found some
    have chosen : stored.getD best.2 {} = stored i := by
      rw [← index]
      exact Table.getD_of_lt _ _ i.isLt
    have own := slotValid_residue small i (valid i) counted
    rw [if_pos some, if_neg (by simp only; omega)]
    refine ⟨⟨some, ?_, ?_⟩, ?_⟩
    · intro j
      simp only [stamps, Table.set_apply]
      split
      · exact .inl rfl
      · rename_i apart
        cases vacant : (stored j).empty with
        | true => exact .inl (vacant_stamp (normal j) vacant)
        | false =>
          have placed := slotValid_residue small j (valid j) vacant
          have bound := latest.newest j (List.mem_finRange j) vacant
          have differs : (stored j).stamp ≠ best.1 := by
            intro same
            apply apart
            have residues : ((j.val : Int)) = i.val := by rw [← placed.2, ← own.2, stamp, same]
            omega
          exact .inr ⟨placed.1, lt_of_le_of_ne bound differs, placed.2⟩
    · intro vacant
      simp only [chosen] at vacant
      rw [BucketRecord.empty, vacant] at counted
      contradiction
    · intro j
      simp only [Table.set_apply]
      split
      · exact fun _ => rfl
      · exact vacant_stamp (normal j)
  · rw [if_neg some, if_pos (le_refl (0 : Int))]
    have blank (j : Fin slots) : (stored j).stamp = 0 := by
      cases vacant : (stored j).empty with
      | true => exact vacant_stamp (normal j) vacant
      | false =>
        have placed := slotValid_residue small j (valid j) vacant
        have bound := latest.newest j (List.mem_finRange j) vacant
        omega
    exact ⟨⟨positive, fun j => .inl (blank j), fun _ metric => metric.ofTable_zero⟩, fun j _ => blank j⟩

theorem step_restored (ring : BucketRing slots windowCount) (nonempty : 0 < slots) (small : slots < 2 ^ 63)
    (restored : ring.Restored) : (ring.step sizes).Restored where
  tidy := step_tidy ring nonempty small restored.tidy
  blank := by
    intro j
    rw [step_sealedBuckets ring restored.tidy.positive, Table.set_apply]
    split
    · intro vacant
      rcases toRecord_stamp ring.current with ⟨_, counted⟩ | ⟨stamp, _⟩
      · have same : ring.current.toRecord.empty = ring.current.counters.empty := by
          unfold DenseBucket.toRecord
          split <;> rfl
        rw [same, counted] at vacant
        contradiction
      · exact stamp
    · exact restored.blank j

theorem advance_restored (ring : BucketRing slots windowCount) (nonempty : 0 < slots) (small : slots < 2 ^ 63)
    (target : Int) (restored : ring.Restored) : (ring.advance sizes target).Restored := by
  have positive := restored.tidy.positive
  unfold advance
  split
  · exact restored
  · split
    · exact ⟨clear_tidy ring (by omega), fun _ _ => rfl⟩
    · exact Function.Iterate.rec _ restored (fun ring restored => step_restored ring nonempty small restored) _

-- The two lambdas of `rebuildAggregates`.
def collect (size now : Int) (window : Aggregate) (record : BucketRecord) : Aggregate :=
  if record.empty ∨ record.stamp > now then window
  else if record.stamp ≥ now - size + 1 then addBucket window record else window

theorem rebuild_windows (ring : BucketRing slots windowCount) (now : Int) (i : Fin windowCount) :
    (ring.rebuild sizes now).windows i = collect (sizes i) now ((List.finRange slots).foldl
      (fun window j => collect (sizes i) now window (ring.sealedBuckets j)) {}) ring.current.activeRecord := rfl

def share (metric : Metric) (size now : Int) (record : BucketRecord) : Nat × Nat :=
  if now - size < record.stamp ∧ record.stamp ≤ now then metric.ofRecord record else 0

theorem ofAggregate_collect (metric : Metric) (size now : Int) (window : Aggregate) (record : BucketRecord)
    (blank : record.empty = true → share metric size now record = 0)
    (bounded : Bounded (metric.ofAggregate window + share metric size now record)) :
    metric.ofAggregate (collect size now window record) =
      metric.ofAggregate window + share metric size now record := by
  unfold collect
  cases vacant : record.empty with
  | true => rw [if_pos (.inl rfl), blank vacant, add_zero]
  | false =>
    by_cases inside : now - size < record.stamp ∧ record.stamp ≤ now
    · have amount : share metric size now record = metric.ofRecord record := if_pos inside
      rw [amount] at bounded ⊢
      rw [if_neg (by simp; omega), if_pos (by omega)]
      exact ofAggregate_addBucket metric window record bounded
    · have amount : share metric size now record = 0 := if_neg inside
      rw [amount, add_zero]
      split
      · rfl
      · rename_i past
        simp only [Bool.false_eq_true, false_or, not_lt] at past
        rw [if_neg (by omega)]

theorem ofAggregate_foldl_collect (metric : Metric) (size now : Int) (records : Fin slots → BucketRecord)
    (todo : List (Fin slots)) (window : Aggregate)
    (blank : ∀ j, (records j).empty = true → share metric size now (records j) = 0)
    (bounded : Bounded (metric.ofAggregate window + (todo.map fun j => share metric size now (records j)).sum)) :
    metric.ofAggregate (todo.foldl (fun window j => collect size now window (records j)) window) =
      metric.ofAggregate window + (todo.map fun j => share metric size now (records j)).sum := by
  induction todo generalizing window with
  | nil => simp
  | cons j rest ih =>
    simp only [List.map_cons, List.sum_cons, ← add_assoc] at bounded
    have first := ofAggregate_collect metric size now window (records j) (blank j)
      (bounded.of_le (le_add_amount _ _))
    simp only [List.foldl_cons, List.map_cons, List.sum_cons, ← add_assoc]
    rw [ih _ (by rw [first]; exact bounded), first]

def RebuildFits (sizes : Fin windowCount → Int) (ring : BucketRing slots windowCount) (now : Int) : Prop :=
  ∀ i metric, Bounded (ring.retainedSum metric (now - sizes i) now)

theorem rebuild_law (ring : BucketRing slots windowCount) (restored : ring.Restored)
    (started : ∀ i, sizes i ≤ ring.current.stamp) (fits : ring.RebuildFits sizes ring.current.stamp) :
    (ring.rebuild sizes ring.current.stamp).WindowLaw sizes := by
  intro i metric
  have enough := started i
  have blank (j : Fin slots) (vacant : (ring.sealedBuckets j).empty = true) :
      share metric (sizes i) ring.current.stamp (ring.sealedBuckets j) = 0 := by
    have stamp := restored.blank j vacant
    exact if_neg (by omega)
  have sealedSum : ((List.finRange slots).map fun j =>
      share metric (sizes i) ring.current.stamp (ring.sealedBuckets j)).sum =
      windowSum ring.stamps (fun j => metric.ofRecord (ring.sealedBuckets j))
        (ring.current.stamp - sizes i) ring.current.stamp := sum_finRange _
  have active : share metric (sizes i) ring.current.stamp ring.current.activeRecord =
      if ring.current.stamp - sizes i < ring.current.stamp ∧ ring.current.stamp ≤ ring.current.stamp then
        metric.ofDense ring.current else 0 := by
    rw [share, ofRecord_activeRecord]
    rfl
  have activeBlank (vacant : ring.current.activeRecord.empty = true) :
      share metric (sizes i) ring.current.stamp ring.current.activeRecord = 0 := by
    rw [active, restored.tidy.coherent vacant metric, ite_self]
  have total := fits i metric
  rw [retainedSum, ← sealedSum, ← active] at total
  have zero : metric.ofAggregate {} = 0 := metric.ofTable_zero
  have inner := ofAggregate_foldl_collect metric (sizes i) ring.current.stamp ring.sealedBuckets
    (List.finRange slots) {} blank (by rw [zero, zero_add]; exact total.of_le (le_add_amount _ _))
  rw [zero, zero_add] at inner
  have outer := ofAggregate_collect metric (sizes i) ring.current.stamp ((List.finRange slots).foldl
    (fun window j => collect (sizes i) ring.current.stamp window (ring.sealedBuckets j)) {})
    ring.current.activeRecord activeBlank (by rw [inner]; exact total)
  rw [rebuild_windows, outer, inner, sealedSum, active]
  rfl

theorem restoreRing_current_le (stored : Table slots BucketRecord) (nowStamp : Int)
    (past : ∀ i, (stored i).stamp ≤ nowStamp) :
    (Core.restoreRing stored nowStamp : BucketRing slots windowCount).current.stamp ≤ nowStamp := by
  have latest := latest_all stored
  simp only [Core.restoreRing, activateLatest_eq]
  generalize (List.finRange slots).foldl (latestStep stored) (0, 0) = best at latest ⊢
  by_cases some : best.1 > 0
  · obtain ⟨i, -, -, stamp⟩ := latest.found some
    rw [if_pos some, if_neg (by simp only; omega)]
    exact stamp ▸ past i
  · rw [if_neg some, if_pos (le_refl (0 : Int))]

theorem rebuild_fits (ring : BucketRing slots windowCount) (now stamp : Int) :
    (ring.rebuild sizes now).RebuildFits sizes stamp ↔ ring.RebuildFits sizes stamp := Iff.rfl

theorem rebuild_exact (ring : BucketRing slots windowCount) (nowStamp : Int) (nonempty : 0 < slots)
    (proper : Proper slots sizes) (restored : ring.Restored) (behind : ring.current.stamp ≤ nowStamp)
    (late : (slots : Int) ≤ nowStamp) (fits : (ring.advance sizes nowStamp).RebuildFits sizes nowStamp) :
    ((ring.advance sizes nowStamp).rebuild sizes nowStamp).Exact sizes := by
  have advanced : (ring.advance sizes nowStamp).Restored :=
    advance_restored ring nonempty proper.1 nowStamp restored
  have current : (ring.advance sizes nowStamp).current.stamp = nowStamp := by
    rw [advance_current, max_eq_left behind]
  have started (i : Fin windowCount) : sizes i ≤ nowStamp := le_trans (proper.2 i).2 late
  generalize ring.advance sizes nowStamp = moved at fits advanced current ⊢
  subst current
  have law := rebuild_law moved advanced started fits
  exact ⟨started, ⟨advanced.tidy.positive, advanced.tidy.placed, advanced.tidy.coherent⟩, law⟩

theorem ofDense_bounded (metric : Metric) (bucket : DenseBucket) : Bounded (metric.ofDense bucket) := by
  cases metric <;> exact amount_bounded _

theorem retainedSum_vacant (ring : BucketRing slots windowCount) (metric : Metric) (low high : Int)
    (vacant : ring.sealedBuckets = fun _ => {}) : ring.retainedSum metric low high =
      if low < ring.current.stamp ∧ ring.current.stamp ≤ high then metric.ofDense ring.current else 0 := by
  have zero : windowSum ring.stamps (fun j => metric.ofRecord (ring.sealedBuckets j)) low high = 0 := by
    unfold windowSum
    apply Finset.sum_eq_zero
    intro j _
    simp only [vacant, Metric.ofRecord_default, ite_self]
  rw [retainedSum, zero, zero_add]

theorem rebuildFits_vacant (ring : BucketRing slots windowCount) (now : Int)
    (vacant : ring.sealedBuckets = fun _ => {}) : ring.RebuildFits sizes now := by
  intro i metric
  rw [retainedSum_vacant ring metric _ _ vacant]
  split
  · exact ofDense_bounded metric ring.current
  · exact ⟨by decide, by decide⟩

theorem restoreRing_vacant (nowStamp : Int) :
    (Core.restoreRing (fun _ => {}) nowStamp : BucketRing slots windowCount) =
      { current := { stamp := nowStamp } } := by
  have latest := latest_all (fun _ : Fin slots => {})
  simp only [Core.restoreRing, activateLatest_eq]
  generalize (List.finRange slots).foldl (latestStep fun _ => {}) (0, 0) = best at latest ⊢
  have none : ¬ best.1 > 0 := by
    intro some
    obtain ⟨i, -, counted, -⟩ := latest.found some
    contradiction
  rw [if_neg none, if_pos (le_refl (0 : Int))]

theorem restoreRing_set (i : Fin slots) (record : BucketRecord) (nowStamp : Int)
    (counted : record.empty = false) (positive : 0 < record.stamp) :
    (Core.restoreRing (Table.set (fun _ => {}) i.val record) nowStamp : BucketRing slots windowCount) =
      { current :=
          { stamp := record.stamp
            counters := record.counters
            geo := record.geo.foldl (fun geo entry => geo.set entry.id.toNat entry.counters) (fun _ => {}) } } := by
  let stored : Table slots BucketRecord := Table.set (fun _ => {}) i.val record
  have here : stored i = record := if_pos rfl
  have elsewhere (j : Fin slots) (counted : (stored j).empty = false) : j = i := by
    by_contra apart
    have blank : stored j = {} := if_neg fun same => apart (Fin.ext same)
    rw [blank] at counted
    contradiction
  have latest := latest_all stored
  have newest := latest.newest i (List.mem_finRange i) (by rw [here]; exact counted)
  rw [here] at newest
  obtain ⟨j, index, found, stamp⟩ := latest.found (by omega)
  obtain rfl := elsewhere j found
  rw [here] at stamp
  have chosen : stored.getD j.val {} = record := by
    rw [Table.getD_of_lt _ _ j.isLt]
    exact here
  have cleared : stored.set j.val {} = fun _ => {} := by
    funext k
    simp only [stored, Table.set_apply]
    split <;> rfl
  change Core.restoreRing stored nowStamp = _
  simp only [Core.restoreRing, activateLatest_eq, ← stamp, ← index, chosen, cleared]
  have started : record.stamp > 0 := positive
  rw [if_pos started, if_neg (by simp only; omega)]

theorem rebuild_ahead (ring : BucketRing slots windowCount) (now : Int) (i : Fin windowCount)
    (vacant : ring.sealedBuckets = fun _ => {}) (ahead : now < ring.current.stamp) :
    (ring.rebuild sizes now).windows i = {} := by
  have skipped (window : Aggregate) (record : BucketRecord) (skip : record.empty = true ∨ record.stamp > now) :
      collect (sizes i) now window record = window := if_pos skip
  have sealedPart (todo : List (Fin slots)) : todo.foldl
      (fun window j => collect (sizes i) now window (ring.sealedBuckets j)) {} = {} := by
    induction todo with
    | nil => rfl
    | cons j rest ih =>
      rw [List.foldl_cons, skipped {} (ring.sealedBuckets j) (.inl (by rw [vacant]; rfl))]
      exact ih
  rw [rebuild_windows, sealedPart]
  exact skipped _ _ (.inr ahead)

end BucketRing

namespace Core

-- The clock is not behind the newest stored minute or day.
def NotBehind (image : PersistentImage) (now : Int) : Prop :=
  (∀ i, (image.minutes i).stamp ≤ now.tdiv 60) ∧ ∀ i, (image.days i).stamp ≤ now.tdiv (24 * 60 * 60)

def RestartFits (image : PersistentImage) (now : Int) : Prop :=
  (startFromImage image now).minutes.RebuildFits kMinuteWindowSizes (now.tdiv 60) ∧
    (startFromImage image now).days.RebuildFits kDailyWindowSizes (now.tdiv (24 * 60 * 60))

theorem startFromImage_minutes (image : PersistentImage) (now : Int) :
    (startFromImage image now).minutes =
      ((restoreRing image.minutes (now.tdiv 60)).advance kMinuteWindowSizes (now.tdiv 60)).rebuild
        kMinuteWindowSizes (now.tdiv 60) := by
  simp only [startFromImage, rebuildAggregates, advanceTo_minutes, restored]

theorem startFromImage_days (image : PersistentImage) (now : Int) :
    (startFromImage image now).days =
      ((restoreRing image.days (now.tdiv (24 * 60 * 60))).advance kDailyWindowSizes
        (now.tdiv (24 * 60 * 60))).rebuild kDailyWindowSizes (now.tdiv (24 * 60 * 60)) := by
  simp only [startFromImage, rebuildAggregates, advanceTo_days, restored]

theorem startFromImage_exact (image : PersistentImage) (now : Int) (valid : image.Valid)
    (normal : image.Normal) (late : 366 * (24 * 60 * 60) ≤ now) (current : NotBehind image now)
    (fits : RestartFits image now) : (startFromImage image now).Exact := by
  have minute : now.tdiv 60 = now / 60 := Int.tdiv_eq_ediv_of_nonneg (by omega)
  have day : now.tdiv (24 * 60 * 60) = now / (24 * 60 * 60) := Int.tdiv_eq_ediv_of_nonneg (by omega)
  have minuteSlots : (kMinuteBucketCount : Int) = 43200 := rfl
  have daySlots : (kDailyBucketCount : Int) = 366 := rfl
  obtain ⟨fitsMinutes, fitsDays⟩ := fits
  rw [startFromImage_minutes, BucketRing.rebuild_fits] at fitsMinutes
  rw [startFromImage_days, BucketRing.rebuild_fits] at fitsDays
  refine ⟨?_, ?_⟩
  · rw [startFromImage_minutes]
    exact BucketRing.rebuild_exact _ _ minuteCount_pos minuteSizes_proper
      (BucketRing.restoreRing_restored image.minutes _ minuteSizes_proper.1 valid.minutes normal.1 (by omega))
      (BucketRing.restoreRing_current_le image.minutes _ current.1) (by omega) fitsMinutes
  · rw [startFromImage_days]
    exact BucketRing.rebuild_exact _ _ dailyCount_pos dailySizes_proper
      (BucketRing.restoreRing_restored image.days _ dailySizes_proper.1 valid.days normal.2 (by omega))
      (BucketRing.restoreRing_current_le image.days _ current.2) (by omega) fitsDays

theorem restart_window_laws (bytes : Wire.Bytes) (checkpoint : Checkpoint) (now : Int) (calls : List Call)
    (accepted : decodeCheckpoint bytes = some checkpoint) (late : 366 * (24 * 60 * 60) ≤ now)
    (current : NotBehind checkpoint.image now) (fits : RestartFits checkpoint.image now)
    (runFits : (startFromImage checkpoint.image now).RunFits calls) :
    ((startFromImage checkpoint.image now).run calls).WindowLaws := by
  obtain ⟨valid, normal⟩ := decodeCheckpoint_valid accepted
  have exact := run_exact _ calls runFits (startFromImage_exact _ now valid normal late current fits)
  exact ⟨exact.minutes.law, exact.days.law⟩

theorem restoreRing_loneMinute (record : BucketRecord) (nowStamp : Int) (counted : record.empty = false)
    (positive : 0 < record.stamp) :
    (restoreRing (loneMinute record).minutes nowStamp : BucketRing kMinuteBucketCount 4) =
      { current :=
          { stamp := record.stamp
            counters := record.counters
            geo := record.geo.foldl (fun geo entry => geo.set entry.id.toNat entry.counters) (fun _ => {}) } } :=
  BucketRing.restoreRing_set ⟨_, slotIndex_lt positive.le (by decide) (by decide)⟩ record nowStamp counted
    positive

theorem startFromImage_loneMinute (record : BucketRecord) (now : Int) (counted : record.empty = false)
    (positive : 0 < record.stamp) (early : now.tdiv 60 ≤ record.stamp) :
    (startFromImage (loneMinute record) now).minutes =
      (restoreRing (loneMinute record).minutes (now.tdiv 60)).rebuild kMinuteWindowSizes (now.tdiv 60) := by
  rw [startFromImage_minutes, restoreRing_loneMinute record _ counted positive, BucketRing.advance,
    if_pos early]

theorem startFromImage_loneMinute_days (record : BucketRecord) (now : Int) :
    (startFromImage (loneMinute record) now).days =
      ({ current := { stamp := now.tdiv (24 * 60 * 60) } } : BucketRing kDailyBucketCount 2).rebuild
        kDailyWindowSizes (now.tdiv (24 * 60 * 60)) := by
  have vacant : (loneMinute record).days = fun _ => {} := rfl
  rw [startFromImage_days, vacant, BucketRing.restoreRing_vacant, BucketRing.advance, if_pos le_rfl]

theorem restartFits_loneMinute (record : BucketRecord) (now : Int) (counted : record.empty = false)
    (positive : 0 < record.stamp) (early : now.tdiv 60 ≤ record.stamp) :
    RestartFits (loneMinute record) now := by
  refine ⟨?_, ?_⟩
  · rw [startFromImage_loneMinute record now counted positive early,
      restoreRing_loneMinute record _ counted positive, BucketRing.rebuild_fits]
    exact BucketRing.rebuildFits_vacant _ _ rfl
  · rw [startFromImage_loneMinute_days, BucketRing.rebuild_fits]
    exact BucketRing.rebuildFits_vacant _ _ rfl

theorem restart_window_laws_lone_minute :
    let image := loneMinute { stamp := 33333334, counters := { subscriptionRequests := 1 } }
    NotBehind image 2000000040 ∧
      ((startFromImage image 2000000040).run [.dashboardSnapshot 2000003640]).WindowLaws := by
  have current : NotBehind (loneMinute { stamp := 33333334, counters := { subscriptionRequests := 1 } })
      2000000040 := by
    refine ⟨fun i => ?_, fun _ => (by decide : (0 : Int) ≤ Int.tdiv 2000000040 (24 * 60 * 60))⟩
    simp only [loneMinute, Table.set_apply]
    split <;> decide
  refine ⟨current, ?_⟩
  exact restart_window_laws _ { generation := 1, sequence := 0, image := _ } 2000000040
    [.dashboardSnapshot 2000003640]
    (decodeCheckpoint_loneMinute 33333334 _ 1 0 (by decide) (by decide) (by decide) (by decide)) (by decide)
    current (restartFits_loneMinute _ _ (by decide) (by decide) (by decide)) ⟨trivial, trivial⟩

theorem restart_window_laws_clock_behind :
    let image := loneMinute { stamp := 33333334, counters := { subscriptionRequests := 1 } }
    decodeCheckpoint (checkpointBytes image 1 0) = some { generation := 1, sequence := 0, image } ∧
      RestartFits image 1999999980 ∧ ¬ ((startFromImage image 1999999980).run []).WindowLaws := by
  refine ⟨decodeCheckpoint_loneMinute 33333334 _ 1 0 (by decide) (by decide) (by decide) (by decide),
    restartFits_loneMinute _ _ (by decide) (by decide) (by decide), ?_⟩
  intro laws
  have law := laws.1 0 .total
  simp only [run, List.foldl_nil] at law
  rw [startFromImage_loneMinute _ _ (by decide) (by decide) (by decide),
    restoreRing_loneMinute _ _ (by decide) (by decide),
    BucketRing.rebuild_ahead _ _ _ rfl (by decide), BucketRing.retainedSum_vacant _ _ _ _ rfl] at law
  exact absurd law (by decide)

end Core

end SubConverter.Statistics
