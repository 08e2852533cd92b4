import SubConverter.Statistics.Data

set_option autoImplicit false

namespace SubConverter.Statistics

def kMinuteWindowSizes : Fin 4 → Int := ![60, 24 * 60, 7 * 24 * 60, 30 * 24 * 60]
def kDailyWindowSizes : Fin 2 → Int := ![183, 365]

/-- `static_cast<std::size_t>` of an `int64_t`. -/
def sizeCast (value : Int) : Nat := (value % 2 ^ 64).toNat

/-- `stamp % count` as an index. The C++ remainder takes the sign of the stamp, so a negative stamp
gives an index far outside the ring. -/
def slotIndex (count : Nat) (stamp : Int) : Nat := sizeCast (stamp.tmod count)

def isCountryGeoId (id : GeoId) : Bool := id.toNat < kCountryCount

def isChinaRegionGeoId (id : GeoId) : Bool := kCountryCount ≤ id.toNat && id.toNat < kGeoCount

/-- `countryGeoId("ZZ")`, the code every unknown country is counted under. -/
def unknownCountry : GeoId := 25 * 26 + 25

structure DenseBucket where
  stamp : Int := 0
  counters : Counters := {}
  geo : GeoTable := fun _ => {}

structure Aggregate where
  counters : Counters := {}
  geo : GeoTable := fun _ => {}

structure HourBucket where
  hour : Int := 0
  counters : Counters := {}
deriving DecidableEq, Repr

def denseToSparse (dense : GeoTable) : List GeoCounters :=
  (List.finRange kGeoCount).filterMap fun i =>
    if (dense i).empty then none else some { id := UInt16.ofNat i.val, counters := dense i }

def addBucket (aggregate : Aggregate) (record : BucketRecord) : Aggregate where
  counters := add aggregate.counters record.counters
  geo := record.geo.foldl (fun geo entry => geo.modify entry.id.toNat (add · entry.counters)) aggregate.geo

def subtractBucket (aggregate : Aggregate) (record : BucketRecord) : Aggregate where
  counters := subtract aggregate.counters record.counters
  geo := record.geo.foldl (fun geo entry => geo.modify entry.id.toNat (subtract · entry.counters))
    aggregate.geo

/-- The `BucketRecord` of a dense bucket, its stamp kept even when nothing was counted. -/
def DenseBucket.activeRecord (bucket : DenseBucket) : BucketRecord where
  stamp := bucket.stamp
  counters := bucket.counters
  geo := denseToSparse bucket.geo

/-- The `BucketRecord` a dense bucket is sealed into: stamp 0 when nothing was counted. -/
def DenseBucket.toRecord (bucket : DenseBucket) : BucketRecord :=
  if bucket.activeRecord.empty then { bucket.activeRecord with stamp := 0 } else bucket.activeRecord

/-- The fields `Core` keeps once for minutes and once for days: the current bucket, the ring of
sealed buckets, the running sums of the windows and the dirty marks of the slots. -/
structure BucketRing (slots windowCount : Nat) where
  current : DenseBucket := {}
  sealedBuckets : Table slots BucketRecord := fun _ => {}
  windows : Table windowCount Aggregate := fun _ => {}
  dirty : Table slots Bool := fun _ => false

namespace BucketRing

variable {slots windowCount : Nat}

/-- `minuteRecord` and `dayRecord`. -/
def record (ring : BucketRing slots windowCount) (index : Fin slots) : BucketRecord :=
  if ring.current.stamp > 0 ∧ slotIndex slots ring.current.stamp = index.val then
    ring.current.toRecord
  else ring.sealedBuckets index

/-- `sealMinute` and `sealDay`. -/
def sealCurrent (ring : BucketRing slots windowCount) : BucketRing slots windowCount :=
  if ring.current.stamp ≤ 0 then ring
  else
    let index := slotIndex slots ring.current.stamp
    { ring with
      sealedBuckets := ring.sealedBuckets.set index ring.current.toRecord
      dirty := ring.dirty.set index true }

/-- Take out of every window the sealed bucket that leaves it when the ring moves to `next`. -/
def expire (sizes : Fin windowCount → Int) (ring : BucketRing slots windowCount) (next : Int) :
    BucketRing slots windowCount :=
  { ring with
    windows := fun i =>
      let expired := next - sizes i
      let record := ring.sealedBuckets.getD (slotIndex slots expired) {}
      if record.stamp = expired then subtractBucket (ring.windows i) record else ring.windows i }

/-- One turn of the loops of `advanceMinutes` and `advanceDays`. -/
def step (sizes : Fin windowCount → Int) (ring : BucketRing slots windowCount) :
    BucketRing slots windowCount :=
  let next := ring.current.stamp + 1
  let closed := (ring.expire sizes next).sealCurrent
  { closed with
    current := { stamp := next }
    dirty := closed.dirty.set (slotIndex slots next) true }

def clear (_ : BucketRing slots windowCount) (target : Int) : BucketRing slots windowCount where
  current := { stamp := target }
  sealedBuckets := fun _ => {}
  windows := fun _ => {}
  dirty := fun _ => true

/-- `advanceDays`, and the part of `advanceMinutes` that concerns the ring: the loop turns once for
each unit between the current stamp and the target. -/
def advance (sizes : Fin windowCount → Int) (ring : BucketRing slots windowCount) (target : Int) :
    BucketRing slots windowCount :=
  if target ≤ ring.current.stamp then ring
  else if target - ring.current.stamp ≥ slots then ring.clear target
  else (step sizes)^[(target - ring.current.stamp).toNat] ring

def count (ring : BucketRing slots windowCount) (value : Counters) (ids : List GeoId) :
    BucketRing slots windowCount :=
  let addGeo (geo : GeoTable) : GeoTable :=
    ids.foldl (fun geo id => geo.modify id.toNat (add · value)) geo
  { ring with
    current := { ring.current with
      counters := add ring.current.counters value
      geo := addGeo ring.current.geo }
    windows := fun i =>
      { counters := add (ring.windows i).counters value
        geo := addGeo (ring.windows i).geo }
    dirty := ring.dirty.set (slotIndex slots ring.current.stamp) true }

/-- The part of `activateLatestBuckets` for one ring: the newest nonempty bucket becomes current. -/
def activateLatest (ring : BucketRing slots windowCount) (stored : Table slots BucketRecord) :
    BucketRing slots windowCount :=
  let latest := (List.finRange slots).foldl (fun (best : Int × Nat) i =>
    if !(stored i).empty && (stored i).stamp > best.1 then ((stored i).stamp, i.val) else best) (0, 0)
  if latest.1 > 0 then
    let chosen := stored.getD latest.2 {}
    { ring with
      current :=
        { stamp := latest.1
          counters := chosen.counters
          geo := chosen.geo.foldl (fun geo entry => geo.set entry.id.toNat entry.counters)
            (fun _ => {}) }
      sealedBuckets := stored.set latest.2 {} }
  else { ring with sealedBuckets := stored }

/-- `rebuildAggregates` for one ring: every retained bucket is added to each window that holds its
stamp, counted back from the clock and not from the current bucket. -/
def rebuild (sizes : Fin windowCount → Int) (ring : BucketRing slots windowCount) (now : Int) :
    BucketRing slots windowCount :=
  let collect (i : Fin windowCount) (window : Aggregate) (record : BucketRecord) : Aggregate :=
    if record.empty ∨ record.stamp > now then window
    else if record.stamp ≥ now - sizes i + 1 then addBucket window record else window
  { ring with
    windows := fun i =>
      collect i ((List.finRange slots).foldl (fun window j => collect i window (ring.sealedBuckets j)) {})
        ring.current.activeRecord }

def image (ring : BucketRing slots windowCount) : Table slots BucketRecord :=
  if ring.current.stamp > 0 then
    fun i => if i.val = slotIndex slots ring.current.stamp then ring.record i else ring.sealedBuckets i
  else ring.sealedBuckets

end BucketRing

structure Core where
  runtime : RuntimeState := {}
  startedAt : Int := 0
  startup : Counters := {}
  lifetime : Counters := {}
  startupGeo : GeoTable := fun _ => {}
  lifetimeGeo : GeoTable := fun _ => {}
  minutes : BucketRing kMinuteBucketCount 4 := {}
  days : BucketRing kDailyBucketCount 2 := {}
  hours : Table 24 HourBucket := fun _ => {}
  revision : UInt64 := 0
  dirtyLifetimeGeo : Table kGeoCount Bool := fun _ => false
  runtimeDirty : Bool := false
  dirtyVersion : UInt64 := 0

structure WindowSnapshot where
  counters : Counters := {}
  geo : GeoTable := fun _ => {}

structure SeriesPoint where
  time : Int := 0
  counters : Counters := {}
deriving DecidableEq, Repr

structure DashboardSnapshot where
  revision : UInt64
  generatedAt : Int
  startedAt : Int
  runtime : RuntimeState
  uptimeSeconds : Int
  totalRuntimeSeconds : Int
  startup : WindowSnapshot
  minuteWindows : Table 4 WindowSnapshot
  dailyWindows : Table 2 WindowSnapshot
  lifetime : WindowSnapshot
  series : Table 24 SeriesPoint

namespace Core

def startEmpty (now : Int) : Core where
  runtime := { firstStartedAt := now, lastSeenAt := now, lastStoppedAt := 0, launchCount := 1 }
  startedAt := now
  minutes := { current := { stamp := now.tdiv 60 } }
  days := { current := { stamp := now.tdiv (24 * 60 * 60) } }
  runtimeDirty := true
  dirtyVersion := 1
  revision := 1

def advanceHours (hours : Table 24 HourBucket) (targetHour : Int) : Table 24 HourBucket :=
  hours.modify (slotIndex 24 targetHour) fun slot =>
    if slot.hour ≠ targetHour then { hour := targetHour } else slot

/-- One turn of the loop of `advanceMinutes`. -/
def stepMinute (core : Core) : Core :=
  let minutes := core.minutes.step kMinuteWindowSizes
  { core with minutes, hours := advanceHours core.hours (minutes.current.stamp.tdiv 60) }

def advanceMinutes (core : Core) (targetMinute : Int) : Core :=
  if targetMinute ≤ core.minutes.current.stamp then core
  else if targetMinute - core.minutes.current.stamp ≥ kMinuteBucketCount then
    { core with minutes := core.minutes.clear targetMinute, hours := fun _ => {} }
  else stepMinute^[(targetMinute - core.minutes.current.stamp).toNat] core

def advanceDays (core : Core) (targetDay : Int) : Core :=
  { core with days := core.days.advance kDailyWindowSizes targetDay }

def advanceTo (core : Core) (now : Int) : Core :=
  let targetMinute := now.tdiv 60
  let targetDay := now.tdiv (24 * 60 * 60)
  let moved := targetMinute > core.minutes.current.stamp ∨ targetDay > core.days.current.stamp
  let core := (core.advanceMinutes targetMinute).advanceDays targetDay
  let core := { core with
    hours := advanceHours core.hours ((max targetMinute core.minutes.current.stamp).tdiv 60) }
  if moved then
    { core with
      revision := saturatedAddValue core.revision 1
      dirtyVersion := saturatedAddValue core.dirtyVersion 1 }
  else core

def geoIds (country chinaRegion : GeoId) : List GeoId :=
  let country := if isCountryGeoId country then country else unknownCountry
  let chinaRegion := if isChinaRegionGeoId chinaRegion then chinaRegion else kInvalidGeoId
  [country, chinaRegion].filter (· ≠ kInvalidGeoId)

def record (core : Core) (now : Int) (country chinaRegion : GeoId) (ruleConversions : UInt64) : Core :=
  let core := core.advanceTo now
  let ids := geoIds country chinaRegion
  let value : Counters := { subscriptionRequests := 1, ruleConversions }
  let addGeo (geo : GeoTable) : GeoTable :=
    ids.foldl (fun geo id => geo.modify id.toNat (add · value)) geo
  let hour := core.minutes.current.stamp.tdiv 60
  { core with
    startup := add core.startup value
    lifetime := add core.lifetime value
    startupGeo := addGeo core.startupGeo
    lifetimeGeo := addGeo core.lifetimeGeo
    minutes := core.minutes.count value ids
    days := core.days.count value ids
    hours := (advanceHours core.hours hour).modify (slotIndex 24 hour) fun slot =>
      { slot with counters := add slot.counters value }
    dirtyLifetimeGeo := ids.foldl (fun dirty id => dirty.set id.toNat true) core.dirtyLifetimeGeo
    runtimeDirty := true
    dirtyVersion := saturatedAddValue core.dirtyVersion 1
    revision := saturatedAddValue core.revision 1 }

def uptime (core : Core) (now : Int) : Int := if now > core.startedAt then now - core.startedAt else 0

/-- The snapshot `dashboardSnapshot` builds once the clock has been advanced. -/
def snapshot (core : Core) (now : Int) : DashboardSnapshot where
  revision := core.revision
  generatedAt := now
  startedAt := core.startedAt
  runtime := core.runtime
  uptimeSeconds := core.uptime now
  totalRuntimeSeconds := saturatedRuntime core.runtime.persistedRuntimeSeconds (core.uptime now)
  startup := { counters := core.startup, geo := core.startupGeo }
  minuteWindows := fun i => { counters := (core.minutes.windows i).counters, geo := (core.minutes.windows i).geo }
  dailyWindows := fun i => { counters := (core.days.windows i).counters, geo := (core.days.windows i).geo }
  lifetime := { counters := core.lifetime, geo := core.lifetimeGeo }
  series := fun i =>
    let hour := core.minutes.current.stamp.tdiv 60 - 23 + i.val
    let slot := core.hours.getD (slotIndex 24 hour) {}
    { time := hour * 3600, counters := if slot.hour = hour then slot.counters else {} }

def dashboardSnapshot (core : Core) (now : Int) : DashboardSnapshot × Core :=
  let core := core.advanceTo now
  (core.snapshot now, core)

/-- The hourly series part of `rebuildAggregates`. -/
def rebuildHours (minutes : BucketRing kMinuteBucketCount 4) (nowMinute : Int) : Table 24 HourBucket :=
  let collect (hours : Table 24 HourBucket) (record : BucketRecord) : Table 24 HourBucket :=
    let hour := record.stamp.tdiv 60
    if record.empty ∨ record.stamp > nowMinute then hours
    else if hour ≥ nowMinute.tdiv 60 - 23 ∧ hour ≤ nowMinute.tdiv 60 then
      (advanceHours hours hour).modify (slotIndex 24 hour) fun slot =>
        { slot with counters := add slot.counters record.counters }
    else hours
  collect ((List.finRange kMinuteBucketCount).foldl (fun hours i => collect hours (minutes.sealedBuckets i))
    (fun _ => {})) minutes.current.activeRecord

def rebuildAggregates (core : Core) (now : Int) : Core :=
  { core with
    minutes := core.minutes.rebuild kMinuteWindowSizes (now.tdiv 60)
    days := core.days.rebuild kDailyWindowSizes (now.tdiv (24 * 60 * 60))
    hours := rebuildHours core.minutes (now.tdiv 60) }

/-- A ring as `startFromImage` leaves it before the clock is advanced. -/
def restoreRing {slots windowCount : Nat} (stored : Table slots BucketRecord) (nowStamp : Int) :
    BucketRing slots windowCount :=
  let ring := ({} : BucketRing slots windowCount).activateLatest stored
  if ring.current.stamp ≤ 0 then { ring with current := { ring.current with stamp := nowStamp } } else ring

/-- `startFromImage` before the clock is advanced. -/
def restored (image : PersistentImage) (now : Int) : Core where
  runtime := { image.runtime with
    firstStartedAt := if image.runtime.firstStartedAt ≤ 0 then now else image.runtime.firstStartedAt
    lastSeenAt := now
    lastStoppedAt := 0
    launchCount := saturatedAddValue image.runtime.launchCount 1 }
  startedAt := now
  lifetime := image.lifetime
  lifetimeGeo := image.lifetimeGeo
  minutes := restoreRing image.minutes (now.tdiv 60)
  days := restoreRing image.days (now.tdiv (24 * 60 * 60))

def startFromImage (image : PersistentImage) (now : Int) : Core :=
  let core := ((restored image now).advanceTo now).rebuildAggregates now
  { core with runtimeDirty := true, dirtyVersion := max core.dirtyVersion 1, revision := 1 }

def runtimePatch (core : Core) (now : Int) (stopping : Bool) : DirtyPatch × Core :=
  let runtime := { core.runtime with
    lastSeenAt := now
    lastStoppedAt := if stopping then now else core.runtime.lastStoppedAt }
  ({ runtime := { runtime with
        persistedRuntimeSeconds := saturatedRuntime runtime.persistedRuntimeSeconds (core.uptime now) }
     lifetime := core.lifetime
     metadataPresent := true },
    { core with runtime })

def dirtyBuckets {slots windowCount : Nat} (ring : BucketRing slots windowCount) : List IndexedBucket :=
  ((List.finRange slots).filter ring.dirty).map fun i =>
    { index := UInt32.ofNat i.val, record := ring.record i }

def takeDirtyPatch (core : Core) (now : Int) (stopping : Bool) : DirtyPatch × Core :=
  let (patch, core) := core.runtimePatch now stopping
  ({ patch with
      lifetimeGeo := ((List.finRange kGeoCount).filter core.dirtyLifetimeGeo).map fun i =>
        { id := UInt16.ofNat i.val, counters := core.lifetimeGeo i }
      minutes := dirtyBuckets core.minutes
      days := dirtyBuckets core.days },
    { core with
      dirtyLifetimeGeo := fun _ => false
      minutes := { core.minutes with dirty := fun _ => false }
      days := { core.days with dirty := fun _ => false }
      runtimeDirty := false })

def persistentImage (core : Core) (now : Int) (stopping : Bool) : PersistentImage where
  runtime := { core.runtime with
    persistedRuntimeSeconds := saturatedRuntime core.runtime.persistedRuntimeSeconds (core.uptime now)
    lastSeenAt := now
    lastStoppedAt := if stopping then now else core.runtime.lastStoppedAt }
  lifetime := core.lifetime
  lifetimeGeo := core.lifetimeGeo
  minutes := core.minutes.image
  days := core.days.image

def checkpointImage (core : Core) (now : Int) (stopping : Bool) : PersistentImage × UInt64 :=
  (core.persistentImage now stopping, core.dirtyVersion)

def acknowledgeCheckpoint (core : Core) (dirtyVersion : UInt64) : Core :=
  if dirtyVersion ≠ core.dirtyVersion then core
  else
    { core with
      dirtyLifetimeGeo := fun _ => false
      minutes := { core.minutes with dirty := fun _ => false }
      days := { core.days with dirty := fun _ => false }
      runtimeDirty := false }

end Core

end SubConverter.Statistics
