import SubConverter.Utils.CpuPermits
import SubConverter.Utils.LruStore

set_option autoImplicit false

namespace SubConverter.Utils

/-- What a call of `getOrCompute` ends with; `refused` tells why it did not get its permit back. -/
inductive CacheAnswer (Value Error : Type) where
  | value (value : Value)
  | thrown (error : Error)
  | refused (status : SchedulerSubmitStatus)
deriving DecidableEq, Repr

def CacheAnswer.ofResult {Value Error : Type} : Except Error Value → CacheAnswer Value Error
  | .ok found => .value found
  | .error error => .thrown error

structure Flight (Key Value Error : Type) where
  key : Key
  owner : Nat
  -- What `compute` and `size_of` of the owner came to, and what has been put into the promise.
  result : Option (Except Error Value)
  outcome : Option (Except Error Value)

inductive CallStage (Value Error : Type) where
  | entered
  | bare
  | computing (flight : Nat)
  | sizing (flight : Nat) (value : Value)
  | inserting (flight : Nat) (value : Value) (bytes : Nat)
  | settling (flight : Nat) (result : Except Error Value)
  | erasing (flight : Nat)
  | waiting (flight : Nat)
  | resuming (flight : Nat) (result : Except Error Value)
  | returned (flight : Option Nat) (answer : CacheAnswer Value Error)

structure CacheCall (Key Value Error : Type) where
  key : Key
  cacheHit : Bool
  stage : CallStage Value Error

/-- What `compute`, `size_of` and the way back through the permit gate come to where a call gets to them. -/
structure CacheInput (Value Error : Type) where
  computed : Except Error Value
  size : Except Error (Option Nat)
  status : SchedulerSubmitStatus

structure CacheShared (Key Value Error : Type) where
  store : LruStore Key Value
  inflight : AList fun _ : Key => Nat
  flights : List (Flight Key Value Error)

namespace CacheShared

variable {Key Value Error : Type} [DecidableEq Key] (shared : CacheShared Key Value Error)

def update (flight : Nat) (change : Flight Key Value Error → Flight Key Value Error) : CacheShared Key Value Error :=
  { shared with flights := shared.flights.modify flight change }

def report (flight : Nat) (result : Except Error Value) : CacheShared Key Value Error :=
  shared.update flight fun flight => { flight with result := some result }

def settle (flight : Nat) (result : Except Error Value) : CacheShared Key Value Error :=
  shared.update flight fun flight => { flight with outcome := some result }

def launch (index : Nat) (key : Key) : CacheShared Key Value Error := { shared with
  inflight := shared.inflight.insert key shared.flights.length
  flights := shared.flights ++ [⟨key, index, none, none⟩] }

def enter (index : Nat) (call : CacheCall Key Value Error) : CacheShared Key Value Error × CacheCall Key Value Error :=
  match shared.store.entries.lookup call.key with
  | some cached =>
    ({ shared with store := shared.store.touch cached },
      { call with cacheHit := true, stage := .returned none (.value cached.value) })
  | none =>
    match shared.inflight.lookup call.key with
    | some flight => (shared, { call with stage := .waiting flight })
    | none => (shared.launch index call.key, { call with stage := .computing shared.flights.length })

def fits (size : Option Nat) : Option Nat :=
  size.filter fun bytes => bytes ≤ shared.store.maxBytes && shared.store.maxEntries ≠ 0

/-- The next step of a call, up to or through its next critical section. -/
def advance (index : Nat) (call : CacheCall Key Value Error) (input : CacheInput Value Error) :
    Option (CacheShared Key Value Error × CacheCall Key Value Error) :=
  match call.stage with
  | .entered => some (shared.enter index call)
  | .bare => some (shared, { call with stage := .returned none (.ofResult input.computed) })
  | .computing flight =>
    match input.computed with
    | .ok value => some (shared.report flight (.ok value), { call with stage := .sizing flight value })
    | .error error => some (shared.report flight (.error error), { call with stage := .settling flight (.error error) })
  | .sizing flight value =>
    match input.size with
    | .error error => some (shared.report flight (.error error), { call with stage := .settling flight (.error error) })
    | .ok size =>
      match shared.fits size with
      | some bytes => some (shared, { call with stage := .inserting flight value bytes })
      | none => some (shared, { call with stage := .settling flight (.ok value) })
  | .inserting flight value bytes =>
    some ({ shared with store := shared.store.insert call.key value bytes }, { call with stage := .settling flight (.ok value) })
  | .settling flight result => some (shared.settle flight result, { call with stage := .erasing flight })
  | .erasing flight =>
    some ({ shared with inflight := shared.inflight.erase call.key }, { call with stage := .waiting flight })
  | .waiting flight =>
    (shared.flights[flight]?.bind Flight.outcome).map fun result => (shared, { call with stage := .resuming flight result })
  | .resuming flight result =>
    let answer := if input.status = .accepted then .ofResult result else .refused input.status
    some (shared, { call with stage := .returned (some flight) answer })
  | .returned _ _ => none

end CacheShared

structure ConcurrentLruCache (Key Value Error : Type) where
  shared : CacheShared Key Value Error
  calls : List (CacheCall Key Value Error)

inductive CacheAction (Key Value Error : Type) where
  | getOrCompute (key : Key) (cacheEnabled : Bool)
  | advance (index : Nat) (input : CacheInput Value Error)
  | clear

namespace ConcurrentLruCache

variable {Key Value Error : Type} [DecidableEq Key]

def initial (maxEntries maxBytes : Nat) : ConcurrentLruCache Key Value Error :=
  { shared := { store := { maxEntries := maxEntries, maxBytes := maxBytes }, inflight := ∅, flights := [] }, calls := [] }

def step (cache : ConcurrentLruCache Key Value Error) : CacheAction Key Value Error → Option (ConcurrentLruCache Key Value Error)
  | .getOrCompute key cacheEnabled =>
    some { cache with calls := cache.calls ++ [⟨key, false, if cacheEnabled then .entered else .bare⟩] }
  | .advance index input =>
    cache.calls[index]?.bind fun call =>
      (cache.shared.advance index call input).map fun (shared, changed) =>
        { shared := shared, calls := cache.calls.set index changed }
  | .clear => some { cache with shared := { cache.shared with store := cache.shared.store.clear } }

end ConcurrentLruCache

def CallStage.computes {Value Error : Type} : CallStage Value Error → Bool
  | .computing _ | .sizing _ _ | .inserting _ _ _ | .settling _ _ | .erasing _ => true
  | _ => false

def CallStage.works {Value Error : Type} (flight : Nat) : CallStage Value Error → Bool
  | .computing mine | .sizing mine _ | .inserting mine _ _ | .settling mine _ => mine = flight
  | _ => false

namespace CacheShared

variable {Key Value Error : Type} [DecidableEq Key] {shared later : CacheShared Key Value Error} {index other flight : Nat}
  {call changed : CacheCall Key Value Error} {input : CacheInput Value Error} {key : Key}
  {result outcome : Option (Except Error Value)}

def Owns (shared : CacheShared Key Value Error) (index : Nat) (key : Key) (flight : Nat)
    (result outcome : Option (Except Error Value)) : Prop :=
  shared.inflight.lookup key = some flight ∧ shared.flights[flight]? = some ⟨key, index, result, outcome⟩

def Joins (shared : CacheShared Key Value Error) (key : Key) (flight : Nat) : Prop :=
  ∃ joined, shared.flights[flight]? = some joined ∧ joined.key = key

def Settled (shared : CacheShared Key Value Error) (key : Key) (flight : Nat) (result : Except Error Value) : Prop :=
  ∃ owner, shared.flights[flight]? = some ⟨key, owner, some result, some result⟩

def Fits (shared : CacheShared Key Value Error) (index : Nat) (call : CacheCall Key Value Error) : Prop :=
  match call.stage with
  | .entered | .bare | .returned none _ => True
  | .computing flight => shared.Owns index call.key flight none none
  | .sizing flight value => shared.Owns index call.key flight (some (.ok value)) none
  | .inserting flight value bytes => shared.Owns index call.key flight (some (.ok value)) none ∧ bytes ≤ shared.store.maxBytes
  | .settling flight result => shared.Owns index call.key flight (some result) none
  | .erasing flight => ∃ result, shared.Owns index call.key flight (some result) (some result)
  | .waiting flight => shared.Joins call.key flight
  | .resuming flight result => shared.Settled call.key flight result
  | .returned (some flight) answer => ∃ result, shared.Settled call.key flight result ∧
      (answer = .ofResult result ∨ ∃ status, status ≠ SchedulerSubmitStatus.accepted ∧ answer = .refused status)

structure Extends (shared later : CacheShared Key Value Error) (index : Nat) : Prop where
  owned : ∀ other key flight result outcome, other ≠ index → shared.Owns other key flight result outcome →
    later.Owns other key flight result outcome
  joined : ∀ key flight, shared.Joins key flight → later.Joins key flight
  settled : ∀ key flight result, shared.Settled key flight result → later.Settled key flight result
  maxBytes : later.store.maxBytes = shared.store.maxBytes

theorem Fits.extends (fits : shared.Fits other call) (apart : other ≠ index) (extended : shared.Extends later index) :
    later.Fits other call := by
  obtain ⟨owned, joined, settled, maxBytes⟩ := extended
  unfold CacheShared.Fits at fits ⊢
  split at fits
  case h_1 | h_2 | h_3 => trivial
  case h_4 | h_5 | h_7 => exact owned _ _ _ _ _ apart fits
  case h_6 => exact ⟨owned _ _ _ _ _ apart fits.1, maxBytes ▸ fits.2⟩
  case h_8 =>
    obtain ⟨result, fits⟩ := fits
    exact ⟨result, owned _ _ _ _ _ apart fits⟩
  case h_9 => exact joined _ _ fits
  case h_10 => exact settled _ _ _ fits
  case h_11 =>
    obtain ⟨result, fits, answer⟩ := fits
    exact ⟨result, settled _ _ _ fits, answer⟩

omit [DecidableEq Key] in
theorem update_other {change : Flight Key Value Error → Flight Key Value Error} {before : Nat} (apart : before ≠ flight) :
    (shared.update flight change).flights[before]? = shared.flights[before]? := by
  simp [update, Ne.symm apart]

theorem Owns.update (owns : shared.Owns index key flight result outcome)
    (change : Flight Key Value Error → Flight Key Value Error) :
    (shared.update flight change).flights[flight]? = some (change ⟨key, index, result, outcome⟩) := by
  simp [CacheShared.update, owns.2]

theorem Owns.update_extends (owns : shared.Owns index key flight result none)
    {change : Flight Key Value Error → Flight Key Value Error} {changed : Flight Key Value Error}
    (same : change ⟨key, index, result, none⟩ = changed) (sameKey : changed.key = key) :
    shared.Extends (shared.update flight change) index := by
  constructor
  case owned =>
    intro other key' flight' result' outcome' apart there
    refine ⟨there.1, ?_⟩
    rw [update_other, there.2]
    rintro rfl
    have two := owns.2.symm.trans there.2
    simp only [Option.some.injEq, Flight.mk.injEq] at two
    exact apart two.2.1.symm
  case joined =>
    rintro key' flight' ⟨joined, there, joinedKey⟩
    by_cases here : flight' = flight
    · subst here
      obtain rfl := Option.some.inj (owns.2.symm.trans there)
      exact ⟨changed, same ▸ owns.update change, sameKey.trans joinedKey⟩
    · exact ⟨joined, (update_other here).trans there, joinedKey⟩
  case settled =>
    rintro key' flight' result' ⟨owner, there⟩
    refine ⟨owner, ?_⟩
    rw [update_other, there]
    rintro rfl
    have two := owns.2.symm.trans there
    simp at two
  case maxBytes => rfl

theorem Owns.erase_extends (owns : shared.Owns index key flight result outcome) :
    shared.Extends { shared with inflight := shared.inflight.erase key } index := by
  constructor
  case owned =>
    intro other key' flight' result' outcome' apart there
    have differs : key' ≠ key := by
      rintro rfl
      obtain rfl := Option.some.inj (owns.1.symm.trans there.1)
      have two := owns.2.symm.trans there.2
      simp only [Option.some.injEq, Flight.mk.injEq] at two
      exact apart two.2.1.symm
    exact ⟨(AList.lookup_erase_ne differs).trans there.1, there.2⟩
  case joined => exact fun key flight joins => joins
  case settled => exact fun key flight result settled => settled
  case maxBytes => rfl

theorem extends_store {store : LruStore Key Value} (same : store.maxBytes = shared.store.maxBytes) :
    shared.Extends { shared with store := store } index :=
  ⟨fun _ _ _ _ _ _ owns => owns, fun _ _ joins => joins, fun _ _ _ settled => settled, same⟩

theorem launch_before {joined : Flight Key Value Error} (there : shared.flights[flight]? = some joined) :
    (shared.launch index key).flights[flight]? = some joined := by
  have inside : flight < shared.flights.length := (List.getElem?_eq_some_iff.mp there).1
  simp [launch, List.getElem?_append_left inside, there]

theorem launch_extends (absent : shared.inflight.lookup key = none) : shared.Extends (shared.launch index key) index := by
  constructor
  case owned =>
    intro other key' flight' result' outcome' apart there
    have differs : key' ≠ key := by
      rintro rfl
      exact absurd there.1 (by simp [absent])
    exact ⟨(AList.lookup_insert_ne differs).trans there.1, launch_before there.2⟩
  case joined =>
    rintro key' flight' ⟨joined, there, joinedKey⟩
    exact ⟨joined, launch_before there, joinedKey⟩
  case settled =>
    rintro key' flight' result' ⟨owner, there⟩
    exact ⟨owner, launch_before there⟩
  case maxBytes => rfl

def Matched (shared : CacheShared Key Value Error) : Prop :=
  ∀ (flight : Nat) (joined : Flight Key Value Error) (outcome : Except Error Value),
    shared.flights[flight]? = some joined → joined.outcome = some outcome → joined.result = some outcome

structure Moved (shared later : CacheShared Key Value Error) (index : Nat) (call changed : CacheCall Key Value Error) : Prop where
  key : changed.key = call.key
  fits : later.Fits index changed
  others : shared.Extends later index
  store : shared.store.Kept later.store
  registered : ∀ key flight, later.inflight.lookup key = some flight → later.Joins key flight
  matched : later.Matched
  works : ∀ flight, call.stage.works flight → changed.stage.works flight ∨
    ∃ joined, later.flights[flight]? = some joined ∧ joined.outcome ≠ none
  flights : ∀ flight joined, later.flights[flight]? = some joined → joined.outcome = none →
    (joined.owner = index ∧ changed.stage.works flight) ∨
      ∃ before, shared.flights[flight]? = some before ∧ before.outcome = none ∧ before.owner = joined.owner

structure Sound (shared : CacheShared Key Value Error) : Prop where
  store : shared.store.Sound
  limits : LruStore.Limits shared.store.maxEntries shared.store.maxBytes
  registered : ∀ key flight, shared.inflight.lookup key = some flight → shared.Joins key flight
  matched : shared.Matched

theorem Sound.kept (sound : shared.Sound) : shared.store.Kept shared.store := ⟨sound.store, rfl, rfl⟩

theorem Sound.quiet (sound : shared.Sound) {store : LruStore Key Value} (kept : shared.store.Kept store)
    {stage : CallStage Value Error} {cacheHit : Bool}
    (fits : CacheShared.Fits { shared with store := store } index { call with stage := stage, cacheHit := cacheHit })
    (works : ∀ flight, call.stage.works flight → stage.works flight) :
    shared.Moved { shared with store := store } index call { call with stage := stage, cacheHit := cacheHit } := by
  constructor
  case key => rfl
  case fits => exact fits
  case others => exact extends_store kept.maxBytes
  case store => exact kept
  case registered => exact sound.registered
  case matched => exact sound.matched
  case works => exact fun flight working => .inl (works flight working)
  case flights => exact fun flight joined there unset => .inr ⟨joined, there, unset, rfl⟩

theorem Sound.updated (sound : shared.Sound) (owns : shared.Owns index call.key flight result none)
    {change : Flight Key Value Error → Flight Key Value Error} {changed : Flight Key Value Error}
    (same : change ⟨call.key, index, result, none⟩ = changed) (sameKey : changed.key = call.key) (sameOwner : changed.owner = index)
    (matched : ∀ outcome, changed.outcome = some outcome → changed.result = some outcome) {stage : CallStage Value Error} (fits : (shared.update flight change).Fits index { call with stage := stage })
    (only : ∀ other, call.stage.works other → other = flight) (works : changed.outcome = none → stage.works flight) :
    shared.Moved (shared.update flight change) index call { call with stage := stage } := by
  have there : (shared.update flight change).flights[flight]? = some changed := same ▸ owns.update change
  have others := owns.update_extends same sameKey
  constructor
  case key => rfl
  case fits => exact fits
  case others => exact others
  case store => exact sound.kept
  case registered => exact fun key flight found => others.joined key flight (sound.registered key flight found)
  case matched =>
    intro other joined outcome found set
    by_cases here : other = flight
    · subst here
      obtain rfl := Option.some.inj (there.symm.trans found)
      exact matched outcome set
    · exact sound.matched other joined outcome ((update_other here).symm.trans found) set
  case works =>
    intro other working
    obtain rfl := only other working
    by_cases unset : changed.outcome = none
    · exact .inl (works unset)
    · exact .inr ⟨changed, there, unset⟩
  case flights =>
    intro other joined found unset
    by_cases here : other = flight
    · subst here
      obtain rfl := Option.some.inj (there.symm.trans found)
      exact .inl ⟨sameOwner, works unset⟩
    · rw [update_other here] at found
      exact .inr ⟨joined, found, unset, rfl⟩

theorem Sound.launched (sound : shared.Sound) (absent : shared.inflight.lookup call.key = none)
    (entered : call.stage = .entered) :
    shared.Moved (shared.launch index call.key) index call { call with stage := .computing shared.flights.length } := by
  have others := @launch_extends _ _ _ _ shared index _ absent
  have last : (shared.launch index call.key).flights[shared.flights.length]? = some ⟨call.key, index, none, none⟩ := by
    simp [launch]
  constructor
  case key => rfl
  case fits => exact ⟨AList.lookup_insert _, last⟩
  case others => exact others
  case store => exact sound.kept
  case registered =>
    intro key flight found
    by_cases here : key = call.key
    · subst here
      obtain rfl := Option.some.inj ((AList.lookup_insert _).symm.trans found)
      exact ⟨_, last, rfl⟩
    · exact others.joined key flight (sound.registered key flight ((AList.lookup_insert_ne here).symm.trans found))
  case matched =>
    intro flight joined outcome found set
    have listed : (shared.flights ++ [⟨call.key, index, none, none⟩])[flight]? = some joined := found
    rw [lookup_concat] at listed
    split at listed
    next => simp [← Option.some.inj listed] at set
    next => exact sound.matched flight joined outcome listed set
  case works => simp [entered, CallStage.works]
  case flights =>
    intro flight joined found unset
    have listed : (shared.flights ++ [⟨call.key, index, none, none⟩])[flight]? = some joined := found
    rw [lookup_concat] at listed
    split at listed
    next here =>
      cases listed
      exact .inl ⟨rfl, by simp [CallStage.works, here]⟩
    next => exact .inr ⟨joined, listed, unset, rfl⟩

theorem Sound.enter (sound : shared.Sound) (entered : call.stage = .entered) :
    shared.Moved (shared.enter index call).1 index call (shared.enter index call).2 := by
  have idle (flight : Nat) : call.stage.works flight = false := by rw [entered]; rfl
  unfold CacheShared.enter
  split
  next cached found => exact sound.quiet (sound.store.touch cached) trivial fun flight working => by simp [idle] at working
  next missing =>
    split
    next flight found =>
      exact sound.quiet sound.kept (sound.registered call.key flight found) fun flight working => by simp [idle] at working
    next absent => exact sound.launched absent entered

omit [DecidableEq Key] in
theorem fits_bytes {size : Option Nat} {bytes : Nat} (fitting : shared.fits size = some bytes) : bytes ≤ shared.store.maxBytes := by
  have small := (Option.filter_eq_some_iff.mp fitting).2
  simp only [Bool.and_eq_true, decide_eq_true_eq] at small
  exact small.1

theorem Sound.advance (sound : shared.Sound) (fits : shared.Fits index call)
    (advanced : shared.advance index call input = some (later, changed)) : shared.Moved later index call changed := by
  obtain ⟨key, cacheHit, stage⟩ := call
  cases stage with
  | entered =>
    have same := Option.some.inj advanced
    have moved := @Sound.enter _ _ _ _ _ index ⟨key, cacheHit, .entered⟩ sound rfl
    rw [same] at moved
    exact moved
  | bare =>
    cases advanced
    exact sound.quiet sound.kept trivial fun flight working => by simp [CallStage.works] at working
  | computing flight =>
    have owns : shared.Owns index key flight none none := fits
    simp only [CacheShared.advance] at advanced
    split at advanced <;> cases advanced
    · exact sound.updated owns rfl rfl rfl (by simp) ⟨owns.1, owns.update _⟩ (by simp [CallStage.works]) (by simp [CallStage.works])
    · exact sound.updated owns rfl rfl rfl (by simp) ⟨owns.1, owns.update _⟩ (by simp [CallStage.works]) (by simp [CallStage.works])
  | sizing flight value =>
    have owns : shared.Owns index key flight (some (.ok value)) none := fits
    simp only [CacheShared.advance] at advanced
    split at advanced
    · cases advanced
      exact sound.updated owns rfl rfl rfl (by simp) ⟨owns.1, owns.update _⟩ (by simp [CallStage.works]) (by simp [CallStage.works])
    · split at advanced
      next bytes fitting =>
        cases advanced
        exact sound.quiet sound.kept ⟨owns, fits_bytes fitting⟩ fun _ working => working
      next =>
        cases advanced
        exact sound.quiet sound.kept owns fun _ working => working
  | inserting flight value bytes =>
    cases advanced
    exact sound.quiet (sound.store.insert sound.limits fits.2 key value) fits.1 fun _ working => working
  | settling flight result =>
    have owns : shared.Owns index key flight (some result) none := fits
    cases advanced
    exact sound.updated owns rfl rfl rfl (by simp) ⟨result, owns.1, owns.update _⟩ (by simp [CallStage.works]) (by simp)
  | erasing flight =>
    obtain ⟨result, owns⟩ := fits
    cases advanced
    constructor
    case key => rfl
    case fits => exact ⟨_, owns.2, rfl⟩
    case others => exact owns.erase_extends
    case store => exact sound.kept
    case matched => exact sound.matched
    case registered =>
      intro other flight' found
      have differs : other ≠ key := by
        rintro rfl
        simp at found
      exact sound.registered other flight' ((AList.lookup_erase_ne differs).symm.trans found)
    case works => simp [CallStage.works]
    case flights => exact fun flight joined there unset => .inr ⟨joined, there, unset, rfl⟩
  | waiting flight =>
    obtain ⟨joined, there, joinedKey⟩ := fits
    obtain ⟨result, found, moved⟩ : ∃ result, joined.outcome = some result ∧
        (shared, ({ key := key, cacheHit := cacheHit, stage := .resuming flight result } : CacheCall Key Value Error)) =
          (later, changed) := by
      simpa [CacheShared.advance, there] using advanced
    cases moved
    have same : joined = ⟨key, joined.owner, some result, some result⟩ := by
      cases joined
      simp only [Flight.mk.injEq] at joinedKey ⊢
      exact ⟨joinedKey, trivial, sound.matched flight _ result there found, found⟩
    exact sound.quiet sound.kept ⟨joined.owner, same ▸ there⟩ fun flight working => by simp [CallStage.works] at working
  | resuming flight result =>
    have settled : shared.Settled key flight result := fits
    cases advanced
    refine sound.quiet sound.kept ⟨result, settled, ?_⟩ fun flight working => by simp [CallStage.works] at working
    by_cases granted : input.status = .accepted
    · exact .inl (if_pos granted)
    · exact .inr ⟨input.status, granted, if_neg granted⟩
  | returned flight answer => simp [CacheShared.advance] at advanced

end CacheShared

namespace ConcurrentLruCache

variable {Key Value Error : Type} [DecidableEq Key] {cache next : ConcurrentLruCache Key Value Error} {maxEntries maxBytes : Nat}

structure Sound (maxEntries maxBytes : Nat) (cache : ConcurrentLruCache Key Value Error) : Prop where
  shared : cache.shared.Sound
  maxEntries : cache.shared.store.maxEntries = maxEntries
  maxBytes : cache.shared.store.maxBytes = maxBytes
  calls : ∀ (index : Nat) (call : CacheCall Key Value Error), cache.calls[index]? = some call → cache.shared.Fits index call
  attended : ∀ (flight : Nat) (joined : Flight Key Value Error), cache.shared.flights[flight]? = some joined →
    joined.outcome = none → ∃ call, cache.calls[joined.owner]? = some call ∧ call.stage.works flight

omit [DecidableEq Key] in
theorem initial_store_sound : LruStore.Sound ({ maxEntries := maxEntries, maxBytes := maxBytes } : LruStore Key Value) :=
  ⟨⟨.refl _, by simp, by simp⟩, rfl, Nat.zero_le _, Nat.zero_le _⟩

theorem initial_sound (limits : LruStore.Limits maxEntries maxBytes) :
    (initial maxEntries maxBytes : ConcurrentLruCache Key Value Error).Sound maxEntries maxBytes := by
  constructor
  case shared => exact ⟨initial_store_sound, limits, by simp [initial], by simp [CacheShared.Matched, initial]⟩
  case maxEntries => rfl
  case maxBytes => rfl
  case calls => simp [initial]
  case attended => simp [initial]

theorem Sound.getOrCompute (sound : cache.Sound maxEntries maxBytes) {key : Key} {cacheEnabled : Bool}
    (stepped : cache.step (.getOrCompute key cacheEnabled) = some next) : next.Sound maxEntries maxBytes := by
  cases stepped
  constructor
  case shared => exact sound.shared
  case maxEntries => exact sound.maxEntries
  case maxBytes => exact sound.maxBytes
  case calls =>
    apply forall_lookup_concat
    · cases cacheEnabled <;> trivial
    · exact sound.calls
  case attended =>
    intro flight joined there unset
    obtain ⟨call, found, works⟩ := sound.attended flight joined there unset
    have inside : joined.owner < cache.calls.length := (List.getElem?_eq_some_iff.mp found).1
    exact ⟨call, (List.getElem?_append_left inside).trans found, works⟩

theorem Sound.advance (sound : cache.Sound maxEntries maxBytes) {index : Nat} {input : CacheInput Value Error}
    (stepped : cache.step (.advance index input) = some next) : next.Sound maxEntries maxBytes := by
  obtain ⟨call, here, stepped⟩ := Option.bind_eq_some_iff.mp stepped
  obtain ⟨⟨shared, changed⟩, advanced, rfl⟩ := Option.map_eq_some_iff.mp stepped
  have moved := sound.shared.advance (sound.calls index call here) advanced
  constructor
  case shared =>
    refine ⟨moved.store.sound, ?_, moved.registered, moved.matched⟩
    have limits := sound.shared.limits
    rw [← moved.store.maxEntries, ← moved.store.maxBytes] at limits
    exact limits
  case maxEntries => exact moved.store.maxEntries.trans sound.maxEntries
  case maxBytes => exact moved.store.maxBytes.trans sound.maxBytes
  case calls =>
    refine forall_lookup_set here moved.fits ?_
    exact fun other part apart there => (sound.calls other part there).extends apart moved.others
  case attended =>
    intro flight joined there unset
    have placed : (cache.calls.set index changed)[index]? = some changed := by simp [lookup_set here]
    rcases moved.flights flight joined there unset with ⟨owner, works⟩ | ⟨before, found, open', owner⟩
    · exact ⟨changed, owner ▸ placed, works⟩
    · obtain ⟨owning, listed, works⟩ := sound.attended flight before found open'
      rw [owner] at listed
      by_cases mine : joined.owner = index
      · rw [mine] at listed
        obtain rfl := Option.some.inj (here.symm.trans listed)
        rcases moved.works flight works with works | ⟨joined', there', set⟩
        · exact ⟨changed, mine ▸ placed, works⟩
        · obtain rfl := Option.some.inj (there.symm.trans there')
          exact absurd unset set
      · exact ⟨owning, by rw [lookup_set here, if_neg mine, listed], works⟩

theorem Sound.clear (sound : cache.Sound maxEntries maxBytes) (stepped : cache.step .clear = some next) :
    next.Sound maxEntries maxBytes := by
  cases stepped
  constructor
  case shared => exact ⟨LruStore.clear_kept.sound, sound.shared.limits, sound.shared.registered, sound.shared.matched⟩
  case maxEntries => exact sound.maxEntries
  case maxBytes => exact sound.maxBytes
  case calls =>
    intro index call there
    -- No call holds on to anything of the store.
    exact (sound.calls index call there).extends (Nat.succ_ne_self index).symm (CacheShared.extends_store rfl)
  case attended => exact sound.attended

theorem Sound.step {action : CacheAction Key Value Error} (sound : cache.Sound maxEntries maxBytes)
    (stepped : cache.step action = some next) : next.Sound maxEntries maxBytes := by
  cases action with
  | getOrCompute key cacheEnabled => exact sound.getOrCompute stepped
  | advance index input => exact sound.advance stepped
  | clear => exact sound.clear stepped

theorem run_sound {actions : List (CacheAction Key Value Error)} (limits : LruStore.Limits maxEntries maxBytes)
    (ran : runSteps ConcurrentLruCache.step (initial maxEntries maxBytes) actions = some cache) :
    cache.Sound maxEntries maxBytes :=
  runSteps_keeps Sound.step (initial_sound limits) ran

structure SingleFlight (maxEntries maxBytes : Nat) (cache : ConcurrentLruCache Key Value Error) : Prop where
  bytes : cache.shared.store.bytes = LruStore.sizes cache.shared.store.entries
  listed : (cache.shared.store.lru.map LruNode.key).Perm cache.shared.store.entries.keys
  distinct : (cache.shared.store.lru.map LruNode.key).Nodup
  entryLimit : cache.shared.store.entries.entries.length ≤ maxEntries
  byteLimit : cache.shared.store.bytes ≤ maxBytes
  single : ∀ (index other : Nat) (call rival : CacheCall Key Value Error), cache.calls[index]? = some call →
    cache.calls[other]? = some rival → call.stage.computes → rival.stage.computes → call.key = rival.key → index = other
  joined : ∀ call ∈ cache.calls, ∀ flight answer, call.stage = .returned (some flight) answer →
    ∃ joined result, cache.shared.flights[flight]? = some joined ∧ joined.key = call.key ∧ joined.result = some result ∧
      (answer = .ofResult result ∨ ∃ status, status ≠ SchedulerSubmitStatus.accepted ∧ answer = .refused status)
  -- No call waits for a promise that nobody is going to keep.
  attended : ∀ (flight : Nat) (joined : Flight Key Value Error), cache.shared.flights[flight]? = some joined →
    joined.outcome = none → ∃ call, cache.calls[joined.owner]? = some call ∧ call.stage.works flight

theorem owns_of_computes {shared : CacheShared Key Value Error} {index : Nat} {call : CacheCall Key Value Error}
    (fits : shared.Fits index call) (computes : call.stage.computes) :
    ∃ flight result outcome, shared.Owns index call.key flight result outcome := by
  obtain ⟨key, cacheHit, stage⟩ := call
  cases stage with
  | computing flight => exact ⟨flight, none, none, fits⟩
  | sizing flight value => exact ⟨flight, some (.ok value), none, fits⟩
  | inserting flight value bytes => exact ⟨flight, some (.ok value), none, fits.1⟩
  | settling flight result => exact ⟨flight, some result, none, fits⟩
  | erasing flight =>
    obtain ⟨result, owns⟩ := fits
    exact ⟨flight, some result, some result, owns⟩
  | entered | bare | waiting | resuming | returned => simp [CallStage.computes] at computes

theorem single_flight {actions : List (CacheAction Key Value Error)} (limits : LruStore.Limits maxEntries maxBytes)
    (ran : runSteps ConcurrentLruCache.step (initial maxEntries maxBytes) actions = some cache) :
    cache.SingleFlight maxEntries maxBytes := by
  have sound := run_sound limits ran
  have store := sound.shared.store
  constructor
  case bytes => exact store.bytes
  case listed => exact store.linked.keys
  case distinct => exact store.linked.keys.nodup_iff.mpr (AList.keys_nodup _)
  case entryLimit => exact sound.maxEntries ▸ store.entryLimit
  case byteLimit => exact sound.maxBytes ▸ store.byteLimit
  case single =>
    intro index other call rival here there computes rivals same
    obtain ⟨flight, result, outcome, mapped, owned⟩ := owns_of_computes (sound.calls index call here) computes
    obtain ⟨flight', result', outcome', mapped', owned'⟩ := owns_of_computes (sound.calls other rival there) rivals
    rw [← same] at mapped'
    obtain rfl := Option.some.inj (mapped.symm.trans mapped')
    have two := owned.symm.trans owned'
    simp only [Option.some.injEq, Flight.mk.injEq] at two
    exact two.2.1
  case joined =>
    intro call member flight answer returned
    obtain ⟨index, here⟩ := List.mem_iff_getElem?.mp member
    have fits := sound.calls index call here
    unfold CacheShared.Fits at fits
    rw [returned] at fits
    obtain ⟨result, ⟨owner, there⟩, received⟩ := fits
    exact ⟨_, result, there, rfl, rfl, received⟩
  case attended => exact sound.attended

def joinedRun (status : SchedulerSubmitStatus) : List (CacheAction Nat Nat Unit) :=
  let input : CacheInput Nat Unit := { computed := .ok 5, size := .ok (some 3), status := .accepted }
  [.getOrCompute 0 true, .getOrCompute 0 true, .advance 0 input, .advance 1 input, .advance 0 input, .advance 0 input,
    .advance 0 input, .clear, .advance 0 input, .advance 1 input, .advance 0 input, .advance 1 { input with status := status },
    .advance 0 input, .advance 0 input]

theorem single_flight_joined : LruStore.Limits 2 8 ∧
    ∃ cache, runSteps step (initial 2 8) (joinedRun .accepted) = some cache ∧ cache.SingleFlight 2 8 :=
  ⟨.inl (by decide), _, rfl, @single_flight Nat Nat Unit _ _ 2 8 (joinedRun .accepted) (.inl (by decide)) rfl⟩

def wrappedRun : List (CacheAction Nat Nat Unit) :=
  let input : CacheInput Nat Unit := { computed := .ok 5, size := .ok (some (2 ^ 63)), status := .accepted }
  .getOrCompute 0 true :: .getOrCompute 1 true :: (List.replicate 4 (.advance 0 input) ++ List.replicate 4 (.advance 1 input))

theorem single_flight_limits :
    (∃ cache : ConcurrentLruCache Nat Nat Unit,
      runSteps step (initial 2 8) [.getOrCompute 0 false, .getOrCompute 0 false] = some cache ∧
        cache.calls = [⟨0, false, .bare⟩, ⟨0, false, .bare⟩]) ∧
      (∃ cache, runSteps step (initial 2 8) (joinedRun .cancelled) = some cache ∧
        cache.shared.flights = [⟨0, 0, some (.ok 5), some (.ok 5)⟩] ∧
        cache.calls = [⟨0, false, .returned (some 0) (.value 5)⟩, ⟨0, false, .returned (some 0) (.refused .cancelled)⟩]) ∧
      ∃ cache, runSteps step (initial 2 (2 ^ 64 - 1)) wrappedRun = some cache ∧
        cache.shared.store.bytes = 0 ∧ LruStore.sizes cache.shared.store.entries = 2 ^ 64 :=
  ⟨⟨_, rfl, rfl⟩, ⟨_, rfl, rfl, rfl⟩, _, rfl, rfl, rfl⟩

end ConcurrentLruCache

end SubConverter.Utils
