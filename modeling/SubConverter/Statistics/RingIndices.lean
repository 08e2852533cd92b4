import SubConverter.Statistics.Restart

set_option autoImplicit false

namespace SubConverter.Statistics

section Accesses

/-- An access to a ring of so many slots, at `stamp % slots`. -/
structure Access where
  slots : Nat
  stamp : Int
deriving DecidableEq

def Access.index (access : Access) : Int := access.stamp.tmod access.slots

def Access.InRange (access : Access) : Prop := 0 ≤ access.index ∧ access.index < access.slots

instance (access : Access) : Decidable access.InRange := inferInstanceAs (Decidable (_ ∧ _))

namespace BucketRing

variable {slots windowCount : Nat} (sizes : Fin windowCount → Int) (ring : BucketRing slots windowCount)

/-- The slots that one turn of the loops of `advanceMinutes` and `advanceDays` touches. -/
def stepAccesses : List Access :=
  List.ofFn (fun i => ⟨slots, ring.current.stamp + 1 - sizes i⟩) ++
    (if ring.current.stamp ≤ 0 then [] else [⟨slots, ring.current.stamp⟩]) ++ [⟨slots, ring.current.stamp + 1⟩]

def advanceAccesses (target : Int) : List Access :=
  if target ≤ ring.current.stamp then []
  else if target - ring.current.stamp ≥ slots then []
  else (List.range (target - ring.current.stamp).toNat).flatMap fun turn => ((step sizes)^[turn] ring).stepAccesses sizes

end BucketRing

namespace Core

variable (core : Core)

def hoursAccess (hour : Int) : Access := ⟨24, hour⟩

def stepMinuteAccesses : List Access :=
  core.minutes.stepAccesses kMinuteWindowSizes ++ [hoursAccess ((core.minutes.current.stamp + 1).tdiv 60)]

def advanceMinutesAccesses (target : Int) : List Access :=
  if target ≤ core.minutes.current.stamp then []
  else if target - core.minutes.current.stamp ≥ kMinuteBucketCount then []
  else (List.range (target - core.minutes.current.stamp).toNat).flatMap fun turn => (stepMinute^[turn] core).stepMinuteAccesses

def advanceToAccesses (now : Int) : List Access :=
  let targetMinute := now.tdiv 60
  let targetDay := now.tdiv (24 * 60 * 60)
  core.advanceMinutesAccesses targetMinute ++ core.days.advanceAccesses kDailyWindowSizes targetDay ++
    [hoursAccess ((max targetMinute (core.advanceMinutes targetMinute).minutes.current.stamp).tdiv 60)]

/-- Behind `advanceTo`, in `record`. -/
def recordAccesses : List Access :=
  [hoursAccess (core.minutes.current.stamp.tdiv 60), ⟨kMinuteBucketCount, core.minutes.current.stamp⟩,
    ⟨kDailyBucketCount, core.days.current.stamp⟩]

/-- Behind `advanceTo`, in `dashboardSnapshot`. -/
def seriesAccesses : List Access :=
  List.ofFn fun i : Fin 24 => hoursAccess (core.minutes.current.stamp.tdiv 60 - 23 + i.val)

def includeMinuteAccesses (nowMinute : Int) (record : BucketRecord) : List Access :=
  let hour := record.stamp.tdiv 60
  if record.empty ∨ record.stamp > nowMinute then []
  else if hour ≥ nowMinute.tdiv 60 - 23 ∧ hour ≤ nowMinute.tdiv 60 then [hoursAccess hour]
  else []

-- The days have no series, and no slot of the rings is looked up by a stamp here.
def rebuildAccesses (now : Int) : List Access :=
  (List.finRange kMinuteBucketCount).flatMap (fun i => includeMinuteAccesses (now.tdiv 60) (core.minutes.sealedBuckets i)) ++
    includeMinuteAccesses (now.tdiv 60) core.minutes.current.activeRecord

def callAccesses : Call → List Access
  | .record now _ _ _ => core.advanceToAccesses now ++ (core.advanceTo now).recordAccesses
  | .dashboardSnapshot now => core.advanceToAccesses now ++ (core.advanceTo now).seriesAccesses

def runAccesses (core : Core) : List Call → List Access
  | [] => []
  | call :: rest => core.callAccesses call ++ runAccesses (core.call call) rest

end Core

def Call.now : Call → Int
  | .record now _ _ _ | .dashboardSnapshot now => now

inductive Start where
  | empty
  | fromImage (image : PersistentImage)

namespace Start

def core : Start → Int → Core
  | .empty, now => Core.startEmpty now
  | .fromImage image, now => Core.startFromImage image now

def accesses : Start → Int → List Access
  | .empty, _ => []
  | .fromImage image, now =>
    (Core.restored image now).advanceToAccesses now ++ ((Core.restored image now).advanceTo now).rebuildAccesses now

end Start

end Accesses

section Turns

theorem Access.inRange_of_nonneg {slots : Nat} {stamp : Int} (filled : 0 < slots) (nonneg : 0 ≤ stamp) : InRange ⟨slots, stamp⟩ := by
  have same : index ⟨slots, stamp⟩ = stamp % slots := Int.tmod_eq_emod_of_nonneg nonneg
  have low : 0 ≤ stamp % (slots : Int) := Int.emod_nonneg _ (by omega)
  have high : stamp % (slots : Int) < slots := Int.emod_lt_of_pos _ (by omega)
  rw [InRange, same]
  exact ⟨low, high⟩

theorem Access.inRange_iff {slots : Nat} {stamp : Int} (near : -(slots : Int) < stamp) (filled : 0 < slots) :
    InRange ⟨slots, stamp⟩ ↔ 0 ≤ stamp := by
  constructor
  · intro range
    by_contra before
    have same : index ⟨slots, stamp⟩ = stamp := by
      have turned : (-stamp).tmod slots = -stamp := Int.tmod_eq_of_lt (by omega) (by omega)
      rw [Int.neg_tmod] at turned
      exact neg_injective turned
    rw [InRange, same] at range
    exact before range.1
  · exact inRange_of_nonneg filled

namespace BucketRing

variable {slots windowCount : Nat} {sizes : Fin windowCount → Int} {ring : BucketRing slots windowCount}

theorem stepAccesses_inRange_iff (fits : ∀ i, sizes i ≤ slots) (filled : 0 < slots) (nonneg : 0 ≤ ring.current.stamp) :
    (∀ access ∈ ring.stepAccesses sizes, access.InRange) ↔ ∀ i, sizes i ≤ ring.current.stamp + 1 := by
  have sealed_ : ∀ access ∈ (if ring.current.stamp ≤ 0 then [] else [⟨slots, ring.current.stamp⟩] : List Access), access.InRange := by
    split
    · simp
    · simpa using Access.inRange_of_nonneg filled nonneg
  have next : Access.InRange ⟨slots, ring.current.stamp + 1⟩ := Access.inRange_of_nonneg filled (by omega)
  have windows : ∀ i, Access.InRange ⟨slots, ring.current.stamp + 1 - sizes i⟩ ↔ sizes i ≤ ring.current.stamp + 1 := by
    intro i
    have size := fits i
    rw [Access.inRange_iff (by omega) filled]
    omega
  simp only [stepAccesses, List.forall_mem_append, List.forall_mem_singleton, List.forall_mem_ofFn_iff]
  constructor
  · exact fun range i => (windows i).mp (range.1.1 i)
  · exact fun sizes => ⟨⟨fun i => (windows i).mpr (sizes i), sealed_⟩, next⟩

def AdvanceMeets (sizes : Fin windowCount → Int) (ring : BucketRing slots windowCount) (target : Int) : Prop :=
  target ≤ ring.current.stamp ∨ (slots : Int) ≤ target - ring.current.stamp ∨ ∀ i, sizes i ≤ ring.current.stamp + 1

theorem turns_inRange_iff {turns : Nat} (some : 0 < turns) {touched : Nat → List Access}
    (turn : ∀ turn, (∀ access ∈ touched turn, access.InRange) ↔ ∀ i, sizes i ≤ ring.current.stamp + turn + 1) :
    (∀ access ∈ (List.range turns).flatMap touched, access.InRange) ↔ ∀ i, sizes i ≤ ring.current.stamp + 1 := by
  rw [List.forall_mem_flatMap]
  constructor
  · intro range i
    have first := (turn 0).mp (range 0 (List.mem_range.mpr some)) i
    simpa using first
  · intro fits later _
    rw [turn]
    intro i
    have size := fits i
    omega

theorem advanceAccesses_inRange_iff (fits : ∀ i, sizes i ≤ slots) (filled : 0 < slots) (nonneg : 0 ≤ ring.current.stamp)
    (target : Int) : (∀ access ∈ ring.advanceAccesses sizes target, access.InRange) ↔ ring.AdvanceMeets sizes target := by
  unfold advanceAccesses AdvanceMeets
  split
  next still => simp [still]
  next moves =>
    split
    next jump => simp [jump]
    next near =>
      have turn : ∀ turn, (∀ access ∈ ((step sizes)^[turn] ring).stepAccesses sizes, access.InRange) ↔
          ∀ i, sizes i ≤ ring.current.stamp + turn + 1 := by
        intro turn
        have stamp : ((step sizes)^[turn] ring).current.stamp = ring.current.stamp + turn := iterate_step_stamp ring turn
        rw [stepAccesses_inRange_iff fits filled (by omega), stamp]
      rw [turns_inRange_iff (by omega) turn]
      simp only [moves, near, false_or]

end BucketRing

end Turns

section Calls

namespace Core

variable {core : Core} {now : Int}

theorem hoursAccess_inRange {hour : Int} (nonneg : 0 ≤ hour) : (hoursAccess hour).InRange :=
  Access.inRange_of_nonneg (by omega) nonneg

theorem minuteSizes_le : ∀ i, kMinuteWindowSizes i ≤ kMinuteBucketCount := fun i => (minuteSizes_proper.2 i).2

theorem dailySizes_le : ∀ i, kDailyWindowSizes i ≤ kDailyBucketCount := fun i => (dailySizes_proper.2 i).2

structure Timed (core : Core) : Prop where
  minutes : 0 ≤ core.minutes.current.stamp
  days : 0 ≤ core.days.current.stamp

theorem stepMinuteAccesses_inRange_iff (nonneg : 0 ≤ core.minutes.current.stamp) :
    (∀ access ∈ core.stepMinuteAccesses, access.InRange) ↔ ∀ i, kMinuteWindowSizes i ≤ core.minutes.current.stamp + 1 := by
  have hour : (hoursAccess ((core.minutes.current.stamp + 1).tdiv 60)).InRange :=
    hoursAccess_inRange (Int.tdiv_nonneg (by omega) (by omega))
  rw [stepMinuteAccesses, List.forall_mem_append, List.forall_mem_singleton,
    BucketRing.stepAccesses_inRange_iff minuteSizes_le minuteCount_pos nonneg]
  exact and_iff_left hour

theorem advanceMinutesAccesses_inRange_iff (nonneg : 0 ≤ core.minutes.current.stamp) (target : Int) :
    (∀ access ∈ core.advanceMinutesAccesses target, access.InRange) ↔
      core.minutes.AdvanceMeets kMinuteWindowSizes target := by
  unfold advanceMinutesAccesses BucketRing.AdvanceMeets
  split
  next still => simp [still]
  next moves =>
    split
    next jump => simp [jump]
    next near =>
      have turn : ∀ turn, (∀ access ∈ (stepMinute^[turn] core).stepMinuteAccesses, access.InRange) ↔
          ∀ i, kMinuteWindowSizes i ≤ core.minutes.current.stamp + turn + 1 := by
        intro turn
        have stamp : (stepMinute^[turn] core).minutes.current.stamp = core.minutes.current.stamp + turn := by
          rw [iterate_stepMinute_minutes]
          exact BucketRing.iterate_step_stamp core.minutes turn
        rw [stepMinuteAccesses_inRange_iff (by omega), stamp]
      rw [BucketRing.turns_inRange_iff (by omega) turn]
      simp only [moves, near, false_or]

def AdvanceMeets (core : Core) (now : Int) : Prop :=
  core.minutes.AdvanceMeets kMinuteWindowSizes (now.tdiv 60) ∧
    core.days.AdvanceMeets kDailyWindowSizes (now.tdiv (24 * 60 * 60))

theorem advanceToAccesses_inRange_iff (timed : core.Timed) (clock : 0 ≤ now) :
    (∀ access ∈ core.advanceToAccesses now, access.InRange) ↔ core.AdvanceMeets now := by
  have minute : 0 ≤ now.tdiv 60 := Int.tdiv_nonneg clock (by omega)
  have hour : (hoursAccess ((max (now.tdiv 60) (core.advanceMinutes (now.tdiv 60)).minutes.current.stamp).tdiv 60)).InRange :=
    hoursAccess_inRange (Int.tdiv_nonneg (by omega) (by omega))
  simp only [advanceToAccesses, List.forall_mem_append, List.forall_mem_singleton, AdvanceMeets,
    advanceMinutesAccesses_inRange_iff timed.minutes, BucketRing.advanceAccesses_inRange_iff dailySizes_le dailyCount_pos timed.days]
  exact and_iff_left hour

theorem Timed.advanceTo (timed : core.Timed) : (core.advanceTo now).Timed := by
  have minutes := timed.minutes
  have days := timed.days
  constructor
  case minutes =>
    rw [advanceTo_minutes, BucketRing.advance_current]
    omega
  case days =>
    rw [advanceTo_days, BucketRing.advance_current]
    omega

theorem recordAccesses_inRange (timed : core.Timed) : ∀ access ∈ core.recordAccesses, access.InRange := by
  simp only [recordAccesses, List.forall_mem_cons, List.not_mem_nil, false_imp_iff, implies_true, and_true]
  have hour := hoursAccess_inRange (Int.tdiv_nonneg timed.minutes (by omega : (0 : Int) ≤ 60))
  exact ⟨hour, Access.inRange_of_nonneg minuteCount_pos timed.minutes, Access.inRange_of_nonneg dailyCount_pos timed.days⟩

theorem seriesAccesses_inRange_iff (timed : core.Timed) :
    (∀ access ∈ core.seriesAccesses, access.InRange) ↔ 23 ≤ core.minutes.current.stamp.tdiv 60 := by
  have hour : 0 ≤ core.minutes.current.stamp.tdiv 60 := Int.tdiv_nonneg timed.minutes (by omega)
  have point : ∀ i : Fin 24, (hoursAccess (core.minutes.current.stamp.tdiv 60 - 23 + i.val)).InRange ↔
      0 ≤ core.minutes.current.stamp.tdiv 60 - 23 + i.val := fun i => Access.inRange_iff (by omega) (by omega)
  rw [seriesAccesses, List.forall_mem_ofFn_iff]
  constructor
  · intro range
    have first := (point 0).mp (range 0)
    simp only [Fin.val_zero, Nat.cast_zero] at first
    omega
  · intro late i
    rw [point]
    omega

def CallMeets (core : Core) : Call → Prop
  | .record now _ _ _ => core.AdvanceMeets now
  | .dashboardSnapshot now => core.AdvanceMeets now ∧ 23 ≤ (max (now.tdiv 60) core.minutes.current.stamp).tdiv 60

theorem callAccesses_inRange_iff {call : Call} (timed : core.Timed) (clock : 0 ≤ call.now) :
    (∀ access ∈ core.callAccesses call, access.InRange) ↔ core.CallMeets call := by
  cases call with
  | record now _ _ _ =>
    have later := recordAccesses_inRange (@Timed.advanceTo core now timed)
    rw [Call.now] at clock
    rw [callAccesses, List.forall_mem_append, advanceToAccesses_inRange_iff timed clock]
    exact and_iff_left later
  | dashboardSnapshot now =>
    rw [Call.now] at clock
    rw [callAccesses, List.forall_mem_append, advanceToAccesses_inRange_iff timed clock,
      seriesAccesses_inRange_iff timed.advanceTo, advanceTo_minutes, BucketRing.advance_current]
    rfl

theorem Timed.call {call : Call} (timed : core.Timed) : (core.call call).Timed := by
  cases call with
  | record now _ _ _ => exact ⟨timed.advanceTo.minutes, timed.advanceTo.days⟩
  | dashboardSnapshot now => exact timed.advanceTo

def RunMeets (core : Core) : List Call → Prop
  | [] => True
  | call :: rest => core.CallMeets call ∧ RunMeets (core.call call) rest

theorem runAccesses_inRange_iff {calls : List Call} (timed : core.Timed) (clocks : ∀ call ∈ calls, 0 ≤ call.now) :
    (∀ access ∈ core.runAccesses calls, access.InRange) ↔ core.RunMeets calls := by
  induction calls generalizing core with
  | nil => simp [runAccesses, RunMeets]
  | cons call rest ih =>
    rw [List.forall_mem_cons] at clocks
    rw [runAccesses, List.forall_mem_append, callAccesses_inRange_iff timed clocks.1, ih timed.call clocks.2, RunMeets]

end Core

end Calls

section Starts

namespace BucketRing

variable {slots windowCount : Nat} {sizes : Fin windowCount → Int} {ring : BucketRing slots windowCount} {target : Int}

structure Stamped (ring : BucketRing slots windowCount) : Prop where
  current : 0 ≤ ring.current.stamp
  slots : ∀ i, (ring.sealedBuckets i).empty = false → 0 ≤ (ring.sealedBuckets i).stamp

theorem toRecord_stamp_nonneg {bucket : DenseBucket} (nonneg : 0 ≤ bucket.stamp) : 0 ≤ bucket.toRecord.stamp := by
  rcases toRecord_stamp bucket with ⟨stamp, _⟩ | ⟨stamp, _⟩ <;> omega

theorem stamped_set {stored : Table slots BucketRecord} {record : BucketRecord} (index : Nat)
    (kept : ∀ i, (stored i).empty = false → 0 ≤ (stored i).stamp) (nonneg : record.empty = false → 0 ≤ record.stamp) :
    ∀ i, (stored.set index record i).empty = false → 0 ≤ (stored.set index record i).stamp := by
  intro i
  rw [Table.set_apply]
  split
  next => exact nonneg
  next => exact kept i

theorem Stamped.step (stamped : ring.Stamped) : (ring.step sizes).Stamped := by
  have nonneg := stamped.current
  constructor
  case current =>
    rw [step_current]
    dsimp only
    omega
  case slots =>
    by_cases start : ring.current.stamp ≤ 0
    · have idle : (ring.step sizes).sealedBuckets = ring.sealedBuckets := by simp [BucketRing.step, sealCurrent, expire, start]
      rw [idle]
      exact stamped.slots
    · rw [step_sealedBuckets ring (not_le.mp start)]
      exact stamped_set _ stamped.slots fun _ => toRecord_stamp_nonneg nonneg

theorem Stamped.advance (stamped : ring.Stamped) (later : 0 ≤ target) : (ring.advance sizes target).Stamped := by
  unfold BucketRing.advance
  split
  next => exact stamped
  next =>
    split
    next =>
      constructor
      case current => exact later
      case slots => exact fun _ _ => le_rfl
    next =>
      generalize (target - ring.current.stamp).toNat = turns
      induction turns with
      | zero => exact stamped
      | succ turns ih =>
        rw [Function.iterate_succ_apply']
        exact ih.step

theorem restoreRing_stamped (stored : Table slots BucketRecord) {nowStamp : Int} (clock : 0 ≤ nowStamp)
    (valid : ∀ i, SlotValid slots i.val (stored i)) : (Core.restoreRing stored nowStamp : BucketRing slots windowCount).Stamped := by
  have kept : ∀ i, (stored i).empty = false → 0 ≤ (stored i).stamp := fun i filled => ((valid i).placed filled).1.le
  simp only [Core.restoreRing, activateLatest_eq]
  generalize (List.finRange slots).foldl (latestStep stored) (0, 0) = latest
  by_cases found : latest.1 > 0
  · rw [if_pos found, if_neg (by dsimp only; omega)]
    constructor
    case current => exact found.le
    case slots => exact stamped_set _ kept fun _ => le_rfl
  · rw [if_neg found, if_pos (le_refl (0 : Int))]
    exact ⟨clock, kept⟩

end BucketRing

namespace Core

variable {core : Core} {now : Int}

theorem includeMinuteAccesses_inRange {record : BucketRecord} {nowMinute : Int} (nonneg : record.empty = false → 0 ≤ record.stamp) :
    ∀ access ∈ includeMinuteAccesses nowMinute record, access.InRange := by
  simp only [includeMinuteAccesses]
  split
  next => simp
  next counted =>
    rw [not_or, Bool.not_eq_true] at counted
    split
    next =>
      rw [List.forall_mem_singleton]
      exact hoursAccess_inRange (Int.tdiv_nonneg (nonneg counted.1) (by omega))
    next => simp

theorem rebuildAccesses_inRange (stamped : core.minutes.Stamped) : ∀ access ∈ core.rebuildAccesses now, access.InRange := by
  rw [rebuildAccesses, List.forall_mem_append, List.forall_mem_flatMap]
  constructor
  · exact fun i _ => includeMinuteAccesses_inRange (stamped.slots i)
  · exact includeMinuteAccesses_inRange fun _ => stamped.current

end Core

namespace Start

def Valid : Start → Prop
  | .empty => True
  | .fromImage image => image.Valid

def Meets : Start → Int → Prop
  | .empty, _ => True
  | .fromImage image, now => (Core.restored image now).AdvanceMeets now

theorem accesses_inRange_iff {start : Start} {now : Int} (valid : start.Valid) (clock : 0 ≤ now) :
    (start.core now).Timed ∧ ((∀ access ∈ start.accesses now, access.InRange) ↔ start.Meets now) := by
  have minute : 0 ≤ now.tdiv 60 := Int.tdiv_nonneg clock (by omega)
  have day : 0 ≤ now.tdiv (24 * 60 * 60) := Int.tdiv_nonneg clock (by omega)
  cases start with
  | empty => exact ⟨⟨minute, day⟩, by simp [accesses, Meets]⟩
  | fromImage image =>
    have decoded : image.Valid := valid
    have minutes : (Core.restored image now).minutes.Stamped := by
      simp only [Core.restored]
      exact BucketRing.restoreRing_stamped image.minutes minute decoded.minutes
    have days : (Core.restored image now).days.Stamped := by
      simp only [Core.restored]
      exact BucketRing.restoreRing_stamped image.days day decoded.days
    have timed : (Core.restored image now).Timed := ⟨minutes.current, days.current⟩
    have advanced : ((Core.restored image now).advanceTo now).minutes.Stamped := by
      rw [Core.advanceTo_minutes]
      exact minutes.advance minute
    have rebuilt := @Core.rebuildAccesses_inRange _ now advanced
    constructor
    · exact ⟨timed.advanceTo.minutes, timed.advanceTo.days⟩
    · rw [accesses, List.forall_mem_append, Core.advanceToAccesses_inRange_iff timed clock]
      exact and_iff_left rebuilt

end Start

theorem ring_indices_inRange_iff (start : Start) (valid : start.Valid) (now : Int) (clock : 0 ≤ now) (calls : List Call)
    (clocks : ∀ call ∈ calls, 0 ≤ call.now) :
    (∀ access ∈ start.accesses now ++ (start.core now).runAccesses calls, access.InRange) ↔
      start.Meets now ∧ (start.core now).RunMeets calls := by
  obtain ⟨timed, started⟩ := Start.accesses_inRange_iff valid clock
  rw [List.forall_mem_append, started, Core.runAccesses_inRange_iff timed clocks]

theorem ring_indices_inRange_recent :
    Start.empty.Valid ∧
      ∀ access ∈ Start.empty.accesses 1700000000 ++ (Start.empty.core 1700000000).runAccesses [.dashboardSnapshot 1700000060],
        access.InRange := by
  have condition := ring_indices_inRange_iff .empty trivial 1700000000 (by decide) [.dashboardSnapshot 1700000060] (by decide)
  have minutes : (Core.startEmpty 1700000000).minutes.AdvanceMeets kMinuteWindowSizes 28333334 := .inr (.inr (by decide))
  have days : (Core.startEmpty 1700000000).days.AdvanceMeets kDailyWindowSizes 19675 := .inl (by decide)
  exact ⟨trivial, condition.mpr ⟨trivial, ⟨⟨minutes, days⟩, by decide⟩, trivial⟩⟩

theorem ring_indices_out_of_range :
    ¬∀ (start : Start), start.Valid → ∀ now, 0 ≤ now → ∀ calls : List Call, (∀ call ∈ calls, 0 ≤ call.now) →
      ∀ access ∈ start.accesses now ++ (start.core now).runAccesses calls, access.InRange := by
  intro inside
  have clocks : ∀ call ∈ [Call.dashboardSnapshot 60], 0 ≤ call.now := by simp [Call.now]
  have range := inside .empty trivial 0 le_rfl [.dashboardSnapshot 60] clocks
  have timed : (Core.startEmpty 0).Timed := ⟨le_rfl, le_rfl⟩
  have met := (Core.runAccesses_inRange_iff timed clocks).mp (List.forall_mem_append.mp range).2
  exact absurd met.1.2 (by decide)

end Starts

end SubConverter.Statistics
