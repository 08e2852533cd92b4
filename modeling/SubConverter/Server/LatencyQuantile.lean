import SubConverter.Lib.Interleaving
import Mathlib.Data.Nat.Log

set_option autoImplicit false

namespace SubConverter.Server

def kRequestStageCount : Nat := 8

def kRequestStageLatencyBucketCount : Nat := 32

def mul64 (left right : Nat) : Nat := left * right % 2 ^ 64

section Recording

-- One turn of the loop for each bucket that may still be entered.
def bucketFrom (microseconds : Nat) : Nat → Nat → Nat → Nat
  | 0, _, bucket => bucket
  | left + 1, upper, bucket =>
    if upper < microseconds then bucketFrom microseconds left (upper <<< 1 % 2 ^ 64) (bucket + 1) else bucket

def requestStageLatencyBucket (nanoseconds : Nat) : Nat :=
  bucketFrom (max 1 (add64 nanoseconds 999 / 1000)) (kRequestStageLatencyBucketCount - 1) 1 0

def countDuration (buckets : List Nat) (duration : Nat) : List Nat :=
  if duration = 0 then buckets else buckets.modify (requestStageLatencyBucket duration) fun count => add64 count 1

structure StageLatencyMetrics where
  stageLatencyBuckets : Fin kRequestStageCount → List Nat

def StageLatencyMetrics.initial : StageLatencyMetrics :=
  ⟨fun _ => List.replicate kRequestStageLatencyBucketCount 0⟩

def StageLatencyMetrics.record (metrics : StageLatencyMetrics) (stageNanoseconds : Fin kRequestStageCount → Nat) :
    StageLatencyMetrics :=
  ⟨fun index => countDuration (metrics.stageLatencyBuckets index) (stageNanoseconds index)⟩

def metricsOf (finished : List (Fin kRequestStageCount → Nat)) : StageLatencyMetrics :=
  finished.foldl StageLatencyMetrics.record .initial

def samplesOf (finished : List (Fin kRequestStageCount → Nat)) (stage : Fin kRequestStageCount) : List Nat :=
  (finished.map fun durations => durations stage).filter (· ≠ 0)

end Recording

section Quantiles

def quantileFrom (target : Nat) : List Nat → Nat → Nat → Nat
  | [], _, _ => 1 <<< (kRequestStageLatencyBucketCount - 1)
  | count :: rest, cumulative, bucket =>
    if target ≤ add64 cumulative count then 1 <<< bucket
    else quantileFrom target rest (add64 cumulative count) (bucket + 1)

def quantileTarget (total numerator denominator : Nat) : Nat :=
  max 1 (sub64 (add64 (mul64 total numerator) denominator) 1 / denominator)

def requestStageLatencyQuantileMicroseconds (snapshot : StageLatencyMetrics) (stage numerator denominator : Nat) : Nat :=
  if inside : stage < kRequestStageCount then
    if denominator = 0 ∨ denominator < numerator then 0
    else
      let buckets := snapshot.stageLatencyBuckets ⟨stage, inside⟩
      let total := buckets.foldl add64 0
      if total = 0 then 0 else quantileFrom (quantileTarget total numerator denominator) buckets 0 0
  else 0

end Quantiles

section Buckets

def wholeMicroseconds (nanoseconds : Nat) : Nat := (nanoseconds + 999) / 1000

variable {microseconds nanoseconds : Nat} {samples : List Nat}

theorem bucketFrom_eq (left bucket : Nat) (room : bucket + left < 32) (inside : Nat.clog 2 microseconds ≤ bucket + left) :
    bucketFrom microseconds left (2 ^ bucket) bucket = max bucket (Nat.clog 2 microseconds) := by
  induction left generalizing bucket with
  | zero =>
    rw [bucketFrom]
    omega
  | succ left ih =>
    rw [bucketFrom]
    split
    next above =>
      have later : bucket < Nat.clog 2 microseconds := (Nat.lt_clog_iff_pow_lt (by omega)).mpr above
      have small : 2 ^ (bucket + 1) < 2 ^ 64 := Nat.pow_lt_pow_right (by omega) (by omega)
      rw [Nat.shiftLeft_eq, ← Nat.pow_succ, Nat.mod_eq_of_lt small, ih (bucket + 1) (by omega) (by omega)]
      omega
    next below =>
      have reached : Nat.clog 2 microseconds ≤ bucket := (Nat.clog_le_iff_le_pow (by omega)).mpr (by omega)
      omega

theorem bucket_eq (positive : nanoseconds ≠ 0) (fits : nanoseconds < 2 ^ 63) (inside : wholeMicroseconds nanoseconds ≤ 2 ^ 31) :
    requestStageLatencyBucket nanoseconds = Nat.clog 2 (wholeMicroseconds nanoseconds) := by
  have exact64 : add64 nanoseconds 999 = nanoseconds + 999 := add64_eq (by omega)
  have whole : max 1 ((nanoseconds + 999) / 1000) = wholeMicroseconds nanoseconds := by
    rw [wholeMicroseconds]
    omega
  have last : Nat.clog 2 (wholeMicroseconds nanoseconds) ≤ 31 := (Nat.clog_le_iff_le_pow (by omega)).mpr inside
  rw [requestStageLatencyBucket, exact64, whole, kRequestStageLatencyBucketCount]
  exact (bucketFrom_eq 31 0 (by omega) (by omega)).trans (Nat.zero_max _)

end Buckets

section Counts

variable {samples durations : List Nat}

def samplesBefore (samples : List Nat) (bucket : Nat) : Nat :=
  samples.countP fun sample => requestStageLatencyBucket sample < bucket

def samplesIn (samples : List Nat) (bucket : Nat) : Nat :=
  samples.countP fun sample => requestStageLatencyBucket sample = bucket

theorem samplesBefore_succ (samples : List Nat) (bucket : Nat) :
    samplesBefore samples (bucket + 1) = samplesBefore samples bucket + samplesIn samples bucket := by
  induction samples with
  | nil => rfl
  | cons sample rest ih =>
    simp only [samplesBefore, samplesIn, List.countP_cons, decide_eq_true_eq] at ih ⊢
    split_ifs <;> omega

theorem samplesIn_concat (samples : List Nat) (last bucket : Nat) :
    samplesIn (samples ++ [last]) bucket = samplesIn samples bucket + if requestStageLatencyBucket last = bucket then 1 else 0 := by
  rw [samplesIn, List.countP_append, List.countP_singleton]
  simp only [decide_eq_true_eq]
  rfl

theorem samplesIn_le (samples : List Nat) (bucket : Nat) : samplesIn samples bucket ≤ samples.length := List.countP_le_length

theorem buckets_eq (few : (durations.filter (· ≠ 0)).length < 2 ^ 63) :
    durations.foldl countDuration (List.replicate kRequestStageLatencyBucketCount 0) =
      (List.range kRequestStageLatencyBucketCount).map (samplesIn (durations.filter (· ≠ 0))) := by
  induction durations using List.reverseRecOn with
  | nil => decide
  | append_singleton earlier last ih =>
    rw [List.foldl_append, List.foldl_cons, List.foldl_nil]
    by_cases skipped : last = 0
    · rw [skipped] at few ⊢
      rw [List.filter_append, show [0].filter (· ≠ 0) = [] from rfl, List.append_nil] at few ⊢
      rw [ih few, countDuration, if_pos rfl]
    · rw [List.filter_append, show [last].filter (· ≠ 0) = [last] by simp [skipped]] at few ⊢
      rw [List.length_append, List.length_singleton] at few
      rw [ih (by omega), countDuration, if_neg skipped]
      refine List.ext_getElem? fun bucket => ?_
      rw [List.getElem?_modify, List.getElem?_map, List.getElem?_map]
      by_cases inside : bucket < kRequestStageLatencyBucketCount
      · have counted := samplesIn_le (earlier.filter (· ≠ 0)) bucket
        rw [List.getElem?_range inside, Option.map_some, Option.map_some, samplesIn_concat]
        simp only [Option.map_eq_map, Option.map_some, Option.some_inj]
        split
        · exact add64_eq (by omega)
        · rfl
      · rw [List.getElem?_eq_none (by simpa using inside)]
        rfl

theorem sum_buckets (samples : List Nat) (bucket : Nat) :
    ((List.range bucket).map (samplesIn samples)).sum = samplesBefore samples bucket := by
  induction bucket with
  | zero =>
    rw [samplesBefore, List.countP_eq_zero.mpr (by simp)]
    rfl
  | succ bucket ih => rw [List.range_succ, List.map_append, List.sum_append, ih, samplesBefore_succ, List.map_singleton, List.sum_singleton]

theorem samplesBefore_le (samples : List Nat) (bucket : Nat) : samplesBefore samples bucket ≤ samples.length :=
  List.countP_le_length

theorem total_eq (few : samples.length < 2 ^ 63) (bucket left : Nat) :
    ((List.range' bucket left).map (samplesIn samples)).foldl add64 (samplesBefore samples bucket) =
      samplesBefore samples (bucket + left) := by
  induction left generalizing bucket with
  | zero => rfl
  | succ left ih =>
    have counted := samplesBefore_le samples (bucket + 1)
    rw [samplesBefore_succ] at counted
    rw [List.range'_succ, List.map_cons, List.foldl_cons, add64_eq (by omega), ← samplesBefore_succ, ih, Nat.add_right_comm,
      Nat.add_assoc]

theorem quantileFrom_spec {target : Nat} (few : samples.length < 2 ^ 63) (bucket left : Nat)
    (met : target ≤ samplesBefore samples (bucket + left)) (short : samplesBefore samples bucket < target) :
    ∃ last < bucket + left, target ≤ samplesBefore samples (last + 1) ∧ samplesBefore samples last < target ∧
      quantileFrom target ((List.range' bucket left).map (samplesIn samples)) (samplesBefore samples bucket) bucket = 2 ^ last := by
  induction left generalizing bucket with
  | zero =>
    rw [Nat.add_zero] at met
    omega
  | succ left ih =>
    have counted := samplesBefore_le samples (bucket + 1)
    have sum := samplesBefore_succ samples bucket
    rw [List.range'_succ, List.map_cons, quantileFrom, add64_eq (by omega), ← sum]
    split
    next reached => exact ⟨bucket, by omega, reached, short, Nat.one_shiftLeft bucket⟩
    next open' =>
      rw [show bucket + (left + 1) = bucket + 1 + left by omega] at met
      obtain ⟨last, inside, found⟩ := ih (bucket + 1) met (by omega)
      exact ⟨last, by omega, found⟩

end Counts

section Targets

variable {total numerator denominator : Nat}

theorem denominator_pos (some' : 0 < total * numerator) (part : numerator ≤ denominator) : 0 < denominator :=
  Nat.lt_of_lt_of_le (Nat.pos_of_mul_pos_left some') part

theorem quantileTarget_eq (some' : 0 < total * numerator) (few : total * numerator < 2 ^ 63) (part : numerator ≤ denominator)
    (fits : denominator < 2 ^ 64) :
    quantileTarget total numerator denominator = (total * numerator + denominator - 1) / denominator := by
  have product : mul64 total numerator = total * numerator := Nat.mod_eq_of_lt (by omega)
  have positive := denominator_pos some' part
  rw [quantileTarget, product]
  generalize total * numerator = rank at some' few
  by_cases small : rank + denominator < 2 ^ 64
  · have first : 1 ≤ (rank + denominator - 1) / denominator := (Nat.one_le_div_iff positive).mpr (by omega)
    rw [add64_eq small, sub64_eq (by omega) small]
    omega
  · have one : (rank + denominator - 1) / denominator = 1 := Nat.div_eq_of_lt_le (by omega) (by omega)
    have wrapped : sub64 (add64 rank denominator) 1 / denominator ≤ 1 := by
      have inside : sub64 (add64 rank denominator) 1 < 2 ^ 64 := Nat.mod_lt _ (by decide)
      exact Nat.le_of_lt_succ (Nat.div_lt_of_lt_mul (by omega))
    omega

theorem target_le_iff (some' : 0 < total * numerator) (few : total * numerator < 2 ^ 63) (part : numerator ≤ denominator)
    (fits : denominator < 2 ^ 64) (count : Nat) :
    quantileTarget total numerator denominator ≤ count ↔ numerator * total ≤ denominator * count := by
  have positive := denominator_pos some' part
  rw [quantileTarget_eq some' few part fits, Nat.mul_comm numerator, Nat.div_le_iff_le_mul_add_pred positive]
  generalize total * numerator = rank
  generalize denominator * count = reached
  omega

end Targets

section Quantile

def samplesAtMost (samples : List Nat) (bound : Nat) : Nat := samples.countP fun sample => wholeMicroseconds sample ≤ bound

structure Recorded (samples : List Nat) (numerator denominator : Nat) : Prop where
  short : ∀ sample ∈ samples, sample < 2 ^ 63
  inside : ∀ sample ∈ samples, wholeMicroseconds sample ≤ 2 ^ 31
  few : samples.length * numerator < 2 ^ 63
  positive : 0 < numerator
  part : numerator ≤ denominator
  fits : denominator < 2 ^ 64

/-- Every value on the way, computed without a bound, fits in 64 bits. -/
structure ExactArithmetic (samples buckets : List Nat) (numerator denominator : Nat) : Prop where
  rounding : ∀ sample ∈ samples, sample + 999 < 2 ^ 64
  bounds : ∀ sample ∈ samples, 2 ^ requestStageLatencyBucket sample < 2 ^ 64
  counters : buckets = (List.range kRequestStageLatencyBucketCount).map (samplesIn samples)
  sums : ∀ bucket, (buckets.take bucket).sum < 2 ^ 64
  product : buckets.sum * numerator < 2 ^ 64
  dividend : buckets.sum * numerator + denominator < 2 ^ 64

variable {samples : List Nat} {numerator denominator : Nat} {finished : List (Fin kRequestStageCount → Nat)}
  {stage : Fin kRequestStageCount}

theorem Recorded.length_lt (recorded : Recorded samples numerator denominator) : samples.length < 2 ^ 63 :=
  Nat.lt_of_le_of_lt (Nat.le_mul_of_pos_right _ recorded.positive) recorded.few

theorem samplesOf_ne_zero : ∀ sample ∈ samplesOf finished stage, sample ≠ 0 := by
  intro sample there
  simpa using (List.mem_filter.mp there).2

theorem metricsOf_buckets (finished : List (Fin kRequestStageCount → Nat)) (stage : Fin kRequestStageCount) :
    (metricsOf finished).stageLatencyBuckets stage =
      (finished.map fun durations => durations stage).foldl countDuration (List.replicate kRequestStageLatencyBucketCount 0) := by
  rw [List.foldl_map, metricsOf]
  exact (List.foldl_hom (fun metrics : StageLatencyMetrics => metrics.stageLatencyBuckets stage) fun _ _ => rfl).symm

theorem samplesBefore_eq (recorded : Recorded samples numerator denominator) (entered : ∀ sample ∈ samples, sample ≠ 0)
    (exponent : Nat) : samplesBefore samples (exponent + 1) = samplesAtMost samples (2 ^ exponent) := by
  refine List.countP_congr fun sample there => ?_
  rw [decide_eq_true_eq, decide_eq_true_eq,
    bucket_eq (entered sample there) (recorded.short sample there) (recorded.inside sample there), Nat.lt_succ_iff]
  exact Nat.clog_le_iff_le_pow (by omega)

theorem samplesBefore_mono {first last : Nat} (le : first ≤ last) : samplesBefore samples first ≤ samplesBefore samples last := by
  refine List.countP_mono_left fun sample _ inside => ?_
  rw [decide_eq_true_eq] at inside ⊢
  omega

theorem samplesBefore_all (recorded : Recorded samples numerator denominator) (entered : ∀ sample ∈ samples, sample ≠ 0) :
    samplesBefore samples kRequestStageLatencyBucketCount = samples.length := by
  rw [kRequestStageLatencyBucketCount, samplesBefore_eq recorded entered, samplesAtMost, List.countP_eq_length]
  intro sample there
  simpa using recorded.inside sample there

theorem samplesBefore_zero (samples : List Nat) : samplesBefore samples 0 = 0 := List.countP_eq_zero.mpr (by simp)

theorem buckets_counted (recorded : Recorded (samplesOf finished stage) numerator denominator) :
    (metricsOf finished).stageLatencyBuckets stage =
      (List.range kRequestStageLatencyBucketCount).map (samplesIn (samplesOf finished stage)) := by
  rw [metricsOf_buckets, buckets_eq recorded.length_lt]
  rfl

theorem quantile_spec (recorded : Recorded (samplesOf finished stage) numerator denominator)
    (present : samplesOf finished stage ≠ []) :
    ∃ last, requestStageLatencyQuantileMicroseconds (metricsOf finished) stage numerator denominator = 2 ^ last ∧
      quantileTarget (samplesOf finished stage).length numerator denominator ≤ samplesBefore (samplesOf finished stage) (last + 1) ∧
      samplesBefore (samplesOf finished stage) last < quantileTarget (samplesOf finished stage).length numerator denominator := by
  have all := samplesBefore_all recorded samplesOf_ne_zero
  have counted : 0 < (samplesOf finished stage).length := List.length_pos_iff.mpr present
  have ranked : 0 < (samplesOf finished stage).length * numerator := Nat.mul_pos counted recorded.positive
  have positive := denominator_pos ranked recorded.part
  have total := total_eq recorded.length_lt 0 kRequestStageLatencyBucketCount
  rw [samplesBefore_zero, Nat.zero_add, all, ← List.range_eq_range'] at total
  have met : quantileTarget (samplesOf finished stage).length numerator denominator ≤
      samplesBefore (samplesOf finished stage) (0 + kRequestStageLatencyBucketCount) := by
    rw [Nat.zero_add, all, target_le_iff ranked recorded.few recorded.part recorded.fits]
    exact Nat.mul_le_mul_right _ recorded.part
  obtain ⟨last, -, reached, short, value⟩ := quantileFrom_spec recorded.length_lt 0 _ met (by
    rw [samplesBefore_zero]
    exact Nat.lt_of_lt_of_le Nat.zero_lt_one (Nat.le_max_left _ _))
  rw [samplesBefore_zero, ← List.range_eq_range'] at value
  refine ⟨last, ?_, reached, short⟩
  have part := recorded.part
  rw [requestStageLatencyQuantileMicroseconds, dif_pos stage.isLt, if_neg (by omega)]
  simp only [Fin.eta, buckets_counted recorded, total]
  rw [if_neg (by omega), value]

theorem exact_arithmetic (recorded : Recorded (samplesOf finished stage) numerator denominator) (small : denominator ≤ 2 ^ 63) :
    ExactArithmetic (samplesOf finished stage) ((metricsOf finished).stageLatencyBuckets stage) numerator denominator := by
  have few := recorded.length_lt
  have all := samplesBefore_all recorded samplesOf_ne_zero
  have product := recorded.few
  have sum : ((List.range kRequestStageLatencyBucketCount).map (samplesIn (samplesOf finished stage))).sum =
      (samplesOf finished stage).length := by
    rw [sum_buckets, all]
  rw [buckets_counted recorded]
  refine ⟨fun sample there => ?_, fun sample there => ?_, rfl, fun bucket => ?_, ?_, ?_⟩
  · have short := recorded.short sample there
    omega
  · refine Nat.pow_lt_pow_right (by omega) ?_
    rw [bucket_eq (samplesOf_ne_zero sample there) (recorded.short sample there) (recorded.inside sample there)]
    exact Nat.lt_of_le_of_lt ((Nat.clog_le_iff_le_pow (by omega)).mpr (recorded.inside sample there)) (by omega)
  · have counted := samplesBefore_le (samplesOf finished stage) (min bucket kRequestStageLatencyBucketCount)
    rw [← List.map_take, List.take_range, sum_buckets]
    omega
  · rw [sum]
    omega
  · rw [sum]
    omega

theorem quantile_least (recorded : Recorded (samplesOf finished stage) numerator denominator)
    (present : samplesOf finished stage ≠ []) :
    let value := requestStageLatencyQuantileMicroseconds (metricsOf finished) stage numerator denominator
    (∃ exponent, value = 2 ^ exponent) ∧
      numerator * (samplesOf finished stage).length ≤ denominator * samplesAtMost (samplesOf finished stage) value ∧
      ∀ exponent, numerator * (samplesOf finished stage).length ≤
        denominator * samplesAtMost (samplesOf finished stage) (2 ^ exponent) → value ≤ 2 ^ exponent := by
  obtain ⟨last, value, reached, short⟩ := quantile_spec recorded present
  have ranked : 0 < (samplesOf finished stage).length * numerator :=
    Nat.mul_pos (List.length_pos_iff.mpr present) recorded.positive
  have rank := target_le_iff ranked recorded.few recorded.part recorded.fits
  simp only [value]
  refine ⟨⟨last, rfl⟩, ?_, fun exponent enough => ?_⟩
  · rw [← samplesBefore_eq recorded samplesOf_ne_zero]
    exact (rank _).mp reached
  · refine Nat.pow_le_pow_right (by omega) ?_
    by_contra above
    rw [← samplesBefore_eq recorded samplesOf_ne_zero] at enough
    have before := @samplesBefore_mono (samplesOf finished stage) _ _ (show exponent + 1 ≤ last by omega)
    have met := (rank _).mpr enough
    omega

theorem quantile_empty (none' : samplesOf finished stage = []) :
    requestStageLatencyQuantileMicroseconds (metricsOf finished) stage numerator denominator = 0 := by
  have buckets : (metricsOf finished).stageLatencyBuckets stage = List.replicate kRequestStageLatencyBucketCount 0 := by
    rw [samplesOf] at none'
    rw [metricsOf_buckets, buckets_eq (by rw [none']; decide), none']
    decide
  rw [requestStageLatencyQuantileMicroseconds, dif_pos stage.isLt]
  simp only [Fin.eta, buckets]
  split
  · rfl
  · rfl

theorem quantile_mono {larger whole : Nat} (recorded : Recorded (samplesOf finished stage) numerator denominator)
    (recorded' : Recorded (samplesOf finished stage) larger whole) (le : numerator * whole ≤ larger * denominator) :
    requestStageLatencyQuantileMicroseconds (metricsOf finished) stage numerator denominator ≤
      requestStageLatencyQuantileMicroseconds (metricsOf finished) stage larger whole := by
  by_cases present : samplesOf finished stage = []
  · rw [quantile_empty present]
    exact Nat.zero_le _
  · obtain ⟨-, -, least⟩ := quantile_least recorded present
    obtain ⟨⟨exponent, value⟩, enough, -⟩ := quantile_least recorded' present
    rw [value] at enough ⊢
    refine least exponent (Nat.le_of_mul_le_mul_left ?_ (Nat.lt_of_lt_of_le recorded'.positive recorded'.part))
    have scaled := Nat.mul_le_mul_left denominator enough
    have ranks := Nat.mul_le_mul_right (samplesOf finished stage).length le
    calc whole * (numerator * (samplesOf finished stage).length)
        = numerator * whole * (samplesOf finished stage).length := by ring
      _ ≤ larger * denominator * (samplesOf finished stage).length := ranks
      _ = denominator * (larger * (samplesOf finished stage).length) := by ring
      _ ≤ denominator * (whole * samplesAtMost (samplesOf finished stage) (2 ^ exponent)) := scaled
      _ = whole * (denominator * samplesAtMost (samplesOf finished stage) (2 ^ exponent)) := by ring

-- `RequestStage::Admission`
def admission : Fin kRequestStageCount := ⟨0, by decide⟩

def twoRequests : List (Fin kRequestStageCount → Nat) := [fun _ => 1000, fun _ => 1000]

theorem quantile_exceptions :
    (¬∃ exponent, requestStageLatencyQuantileMicroseconds (metricsOf []) admission 1 2 = 2 ^ exponent) ∧
      Recorded (samplesOf twoRequests admission) 1 (2 ^ 64 - 1) ∧
      ¬ExactArithmetic (samplesOf twoRequests admission) ((metricsOf twoRequests).stageLatencyBuckets admission) 1 (2 ^ 64 - 1) := by
  refine ⟨?_, ⟨by decide, by decide, by decide, by decide, by decide, by decide⟩, fun exact64 => ?_⟩
  · rintro ⟨exponent, value⟩
    have zero : requestStageLatencyQuantileMicroseconds (metricsOf []) admission 1 2 = 0 := rfl
    have positive : 0 < 2 ^ exponent := Nat.two_pow_pos exponent
    omega
  · have fits := exact64.dividend
    revert fits
    decide

theorem quantile_tight (finished : List (Fin kRequestStageCount → Nat)) (stage : Fin kRequestStageCount)
    (numerator denominator : Nat) (recorded : Recorded (samplesOf finished stage) numerator denominator) :
    let samples := samplesOf finished stage
    let quantile := requestStageLatencyQuantileMicroseconds (metricsOf finished) stage
    (samples = [] → quantile numerator denominator = 0) ∧
      (samples ≠ [] → (∃ exponent, quantile numerator denominator = 2 ^ exponent) ∧
        numerator * samples.length ≤ denominator * samplesAtMost samples (quantile numerator denominator) ∧
        ∀ exponent, numerator * samples.length ≤ denominator * samplesAtMost samples (2 ^ exponent) →
          quantile numerator denominator ≤ 2 ^ exponent) ∧
      (∀ larger whole, Recorded samples larger whole → numerator * whole ≤ larger * denominator →
        quantile numerator denominator ≤ quantile larger whole) ∧
      (denominator ≤ 2 ^ 63 →
        ExactArithmetic samples ((metricsOf finished).stageLatencyBuckets stage) numerator denominator) :=
  ⟨quantile_empty, quantile_least recorded, fun _ _ recorded' => quantile_mono recorded recorded', exact_arithmetic recorded⟩

theorem quantile_tight_two :
    Recorded (samplesOf twoRequests admission) 1 2 ∧
      (2 ≤ 2 ^ 63 →
        ExactArithmetic (samplesOf twoRequests admission) ((metricsOf twoRequests).stageLatencyBuckets admission) 1 2) := by
  have recorded : Recorded (samplesOf twoRequests admission) 1 2 := ⟨by decide, by decide, by decide, by decide, by decide, by decide⟩
  exact ⟨recorded, (quantile_tight twoRequests admission 1 2 recorded).2.2.2⟩

end Quantile

end SubConverter.Server
