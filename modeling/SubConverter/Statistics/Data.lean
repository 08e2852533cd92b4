import SubConverter.Lib.Table

set_option autoImplicit false

namespace SubConverter.Statistics

def kMinuteBucketCount : Nat := 30 * 24 * 60
def kDailyBucketCount : Nat := 366
def kCountryCount : Nat := 26 * 26 + 1
def kChinaRegionCount : Nat := 35
def kGeoCount : Nat := kCountryCount + kChinaRegionCount

abbrev GeoId := UInt16

def kInvalidGeoId : GeoId := 65535

def uint64Max : UInt64 := 18446744073709551615
def int64Max : Int := 9223372036854775807

structure Counters where
  subscriptionRequests : UInt64 := 0
  ruleConversions : UInt64 := 0
deriving DecidableEq, Repr

def Counters.empty (counters : Counters) : Bool :=
  counters.subscriptionRequests == 0 && counters.ruleConversions == 0

structure GeoCounters where
  id : GeoId := kInvalidGeoId
  counters : Counters := {}
deriving DecidableEq, Repr

structure BucketRecord where
  stamp : Int := 0
  counters : Counters := {}
  geo : List GeoCounters := []
deriving DecidableEq, Repr

def BucketRecord.empty (record : BucketRecord) : Bool := record.counters.empty

structure RuntimeState where
  firstStartedAt : Int := 0
  persistedRuntimeSeconds : Int := 0
  lastSeenAt : Int := 0
  lastStoppedAt : Int := 0
  launchCount : UInt64 := 0
deriving DecidableEq, Repr

abbrev GeoTable := Table kGeoCount Counters

structure PersistentImage where
  runtime : RuntimeState := {}
  lifetime : Counters := {}
  lifetimeGeo : GeoTable := fun _ => {}
  minutes : Table kMinuteBucketCount BucketRecord := fun _ => {}
  days : Table kDailyBucketCount BucketRecord := fun _ => {}

structure IndexedBucket where
  index : UInt32 := 0
  record : BucketRecord := {}
deriving DecidableEq, Repr

structure DirtyPatch where
  runtime : RuntimeState := {}
  lifetime : Counters := {}
  lifetimeGeo : List GeoCounters := []
  minutes : List IndexedBucket := []
  days : List IndexedBucket := []
  metadataPresent : Bool := false
deriving DecidableEq, Repr

def saturatedAddValue (lhs rhs : UInt64) : UInt64 :=
  if rhs.toNat > uint64Max.toNat - lhs.toNat then uint64Max else lhs + rhs

def saturatedRuntime (persisted uptime : Int) : Int :=
  let persisted := if persisted < 0 then 0 else persisted
  let uptime := if uptime < 0 then 0 else uptime
  if uptime > int64Max - persisted then int64Max else persisted + uptime

def add (target value : Counters) : Counters where
  subscriptionRequests := saturatedAddValue target.subscriptionRequests value.subscriptionRequests
  ruleConversions := saturatedAddValue target.ruleConversions value.ruleConversions

def subtract (target value : Counters) : Counters where
  subscriptionRequests :=
    if value.subscriptionRequests ≥ target.subscriptionRequests then 0
    else target.subscriptionRequests - value.subscriptionRequests
  ruleConversions :=
    if value.ruleConversions ≥ target.ruleConversions then 0
    else target.ruleConversions - value.ruleConversions

def Counters.amount (counters : Counters) : Nat × Nat :=
  (counters.subscriptionRequests.toNat, counters.ruleConversions.toNat)

def Counters.Fits (target value : Counters) : Prop :=
  target.subscriptionRequests.toNat + value.subscriptionRequests.toNat < 2 ^ 64 ∧
    target.ruleConversions.toNat + value.ruleConversions.toNat < 2 ^ 64

theorem saturatedAddValue_toNat (lhs rhs : UInt64) :
    (saturatedAddValue lhs rhs).toNat = min (lhs.toNat + rhs.toNat) (2 ^ 64 - 1) := by
  have left := lhs.toNat_lt
  have right := rhs.toNat_lt
  have limit : uint64Max.toNat = 2 ^ 64 - 1 := rfl
  unfold saturatedAddValue
  rw [limit]
  split
  · rw [limit]
    omega
  · rw [UInt64.toNat_add]
    omega

theorem amount_add (target value : Counters) (fits : target.Fits value) :
    (add target value).amount = target.amount + value.amount := by
  have first := fits.1
  have second := fits.2
  simp only [Counters.amount, add, saturatedAddValue_toNat, Prod.mk_add_mk]
  congr 1 <;> omega

theorem saturatedSubtract_toNat (target value : UInt64) :
    (if value ≥ target then 0 else target - value).toNat = target.toNat - value.toNat := by
  split
  · rename_i covered
    rw [ge_iff_le, UInt64.le_iff_toNat_le] at covered
    simp
    omega
  · rename_i partly
    rw [ge_iff_le, UInt64.le_iff_toNat_le] at partly
    exact UInt64.toNat_sub_of_le _ _ (by rw [UInt64.le_iff_toNat_le]; omega)

theorem amount_subtract (target value : Counters) :
    (subtract target value).amount = target.amount - value.amount := by
  simp only [Counters.amount, subtract, saturatedSubtract_toNat, Prod.mk_sub_mk]

@[simp] theorem amount_default : ({} : Counters).amount = 0 := rfl

theorem empty_iff_amount (counters : Counters) : counters.empty = true ↔ counters.amount = 0 := by
  simp [Counters.empty, Counters.amount, Prod.ext_iff, ← UInt64.toNat_inj]

theorem add_request_not_empty (target value : Counters) (counted : value.subscriptionRequests = 1) :
    (add target value).empty = false := by
  have one : value.subscriptionRequests.toNat = 1 := by rw [counted]; rfl
  rw [Bool.eq_false_iff]
  intro vacant
  have amount : (add target value).subscriptionRequests.toNat = 0 :=
    congrArg Prod.fst ((empty_iff_amount _).mp vacant)
  have value : min (target.subscriptionRequests.toNat + 1) (2 ^ 64 - 1) = 0 := by
    rw [← amount, add, saturatedAddValue_toNat, one]
  omega

end SubConverter.Statistics
