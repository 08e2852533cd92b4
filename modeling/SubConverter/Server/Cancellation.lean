import SubConverter.Lib.Interleaving

set_option autoImplicit false

namespace SubConverter.Server

inductive RequestCancellationReason where
  | none
  | clientDisconnected
  | deadline
  | shutdown
  | noConsumers
deriving DecidableEq, Repr

section Cancellation

/-- Where a call of `registerRequestCancellationCallback`, and later the registration it returned, stand. -/
inductive RegistrationStage where
  | entered
  | storing
  | invoking
  | held
  | resetting (id : Nat)
deriving DecidableEq, Repr

structure RequestCancellationRegistration where
  stage : RegistrationStage
  id : Nat
  -- The history of the callback: how often it was started, whether a reset has returned, and whether a reset took
  -- the lock before a cancellation had taken the table.
  starts : Nat
  wasReset : Bool
  resetInTime : Bool
deriving DecidableEq, Repr

/-- Where a call of `cancelRequestCancellationState` stands; callbacks are named by their registration. -/
inductive CancelStage where
  | entered (reason : RequestCancellationReason)
  | claiming (reason : RequestCancellationReason)
  | swapping
  | running (taken : List (Nat × Nat))
  | returned (answer : Bool)
deriving DecidableEq, Repr

structure RequestCancellationState where
  reason : RequestCancellationReason
  drainOnShutdown : Bool
  -- The call that holds `callbacks_mutex` between its two steps under the lock.
  callbacksMutex : Option Nat
  callbacks : List (Nat × Nat)
  nextCallbackId : Nat
  registrations : List RequestCancellationRegistration
  cancels : List CancelStage
  tableTaken : Bool
deriving DecidableEq, Repr

inductive CancellationAction where
  | register
  | advance (index : Nat)
  | reset (index : Nat)
  | cancel (reason : RequestCancellationReason)
  | proceed (index pick : Nat)
  | drain
deriving DecidableEq, Repr

namespace RequestCancellationState

def initial : RequestCancellationState :=
  { reason := .none, drainOnShutdown := false, callbacksMutex := none, callbacks := [], nextCallbackId := 1,
    registrations := [], cancels := [], tableTaken := false }

def put (state : RequestCancellationState) (index : Nat) (registration : RequestCancellationRegistration) :
    RequestCancellationState :=
  { state with registrations := state.registrations.set index registration }

def putCancel (state : RequestCancellationState) (index : Nat) (stage : CancelStage) : RequestCancellationState :=
  { state with cancels := state.cancels.set index stage }

/-- The next step of a registration: the rest of the call that makes it, or of a `reset` that has taken its id. -/
def advance (state : RequestCancellationState) (index : Nat) (registration : RequestCancellationRegistration) :
    Option RequestCancellationState :=
  match registration.stage with
  | .entered =>
    if state.callbacksMutex.isSome then none
    else if state.reason ≠ .none then some (state.put index { registration with stage := .invoking })
    else some { state.put index { registration with stage := .storing } with callbacksMutex := some index }
  | .storing =>
    some { state.put index { registration with stage := .held, id := state.nextCallbackId } with
      callbacksMutex := none
      callbacks := state.callbacks ++ [(state.nextCallbackId, index)]
      nextCallbackId := state.nextCallbackId + 1 }
  | .invoking =>
    some (state.put index { registration with stage := .held, starts := registration.starts + 1 })
  | .resetting id =>
    if state.callbacksMutex.isSome then none
    else some { state.put index { registration with
        stage := .held, wasReset := true, resetInTime := registration.resetInTime || !state.tableTaken } with
      callbacks := state.callbacks.filter fun entry => entry.1 ≠ id }
  | .held => none

/-- `reset` takes the id of a registration object, which one thread uses at a time. -/
def reset (state : RequestCancellationState) (index : Nat) (registration : RequestCancellationRegistration) :
    Option RequestCancellationState :=
  match registration.stage with
  | .held =>
    if registration.id = 0 then some (state.put index { registration with wasReset := true })
    else some (state.put index { registration with stage := .resetting registration.id, id := 0 })
  | _ => none

/-- The next step of a cancellation. The table is unordered, so any taken callback may be started next. -/
def proceed (state : RequestCancellationState) (index pick : Nat) : CancelStage → Option RequestCancellationState
  | .entered reason =>
    if reason = .none then some (state.putCancel index (.returned false))
    else if reason = .shutdown ∧ state.drainOnShutdown then some (state.putCancel index (.returned false))
    else some (state.putCancel index (.claiming reason))
  | .claiming reason =>
    if state.reason = .none then some { state.putCancel index .swapping with reason := reason }
    else some (state.putCancel index (.returned false))
  | .swapping =>
    if state.callbacksMutex.isSome then none
    else some { state.putCancel index (.running state.callbacks) with callbacks := [], tableTaken := true }
  | .running taken =>
    if taken = [] then some (state.putCancel index (.returned true))
    else taken[pick]?.bind fun entry =>
      state.registrations[entry.2]?.map fun registration =>
        (state.put entry.2 { registration with starts := registration.starts + 1 }).putCancel index
          (.running (taken.eraseIdx pick))
  | .returned _ => none

def step (state : RequestCancellationState) : CancellationAction → Option RequestCancellationState
  | .register =>
    some { state with registrations := state.registrations ++
      [{ stage := .entered, id := 0, starts := 0, wasReset := false, resetInTime := false }] }
  | .advance index => state.registrations[index]?.bind (state.advance index)
  | .reset index => state.registrations[index]?.bind (state.reset index)
  | .cancel reason => some { state with cancels := state.cancels ++ [.entered reason] }
  | .proceed index pick => state.cancels[index]?.bind (state.proceed index pick)
  | .drain => some { state with drainOnShutdown := true }

end RequestCancellationState

section Shares

variable {index other id : Nat}

namespace RequestCancellationRegistration

def key (registration : RequestCancellationRegistration) : Nat :=
  match registration.stage with
  | .resetting id => id
  | _ => registration.id

def share (registration : RequestCancellationRegistration) : Nat :=
  (match registration.stage with
    | .entered | .storing | .invoking => 1
    | _ => 0) + registration.starts + if registration.resetInTime then 1 else 0

end RequestCancellationRegistration

def RequestCancellationReason.count : RequestCancellationReason → Nat
  | .none => 0
  | _ => 1

theorem RequestCancellationReason.count_eq_one {reason : RequestCancellationReason} (reasoned : reason ≠ .none) :
    reason.count = 1 := by
  cases reason <;> first | rfl | contradiction

def entriesOf (index : Nat) (entries : List (Nat × Nat)) : Nat :=
  total (fun entry => if entry.2 = index then 1 else 0) entries

namespace CancelStage

def holding (index : Nat) : CancelStage → Nat
  | .running taken => entriesOf index taken
  | _ => 0

def swaps : CancelStage → Nat
  | .swapping => 1
  | _ => 0

def succeeds : CancelStage → Nat
  | .swapping | .running _ | .returned true => 1
  | _ => 0

end CancelStage

theorem entriesOf_filter {entries : List (Nat × Nat)} (distinct : (entries.map Prod.fst).Nodup)
    (listed : (id, index) ∈ entries) :
    entriesOf other (entries.filter fun entry => entry.1 ≠ id) + (if other = index then 1 else 0) =
      entriesOf other entries := by
  induction entries with
  | nil => simp at listed
  | cons entry rest ih =>
    simp only [List.map_cons, List.nodup_cons, List.mem_map, not_exists, not_and] at distinct
    rcases List.mem_cons.mp listed with rfl | later
    next =>
      have kept : rest.filter (fun entry => decide (entry.1 ≠ id)) = rest :=
        List.filter_eq_self.mpr fun entry member => decide_eq_true (distinct.1 entry member)
      rw [List.filter_cons_of_neg (by simp), kept]
      simp only [entriesOf, total_cons, Nat.add_comm, @eq_comm Nat index other]
    next =>
      have apart : entry.1 ≠ id := fun same => distinct.1 _ later same.symm
      have moved := ih distinct.2 later
      rw [List.filter_cons_of_pos (by simpa using apart)]
      simp only [entriesOf, total_cons] at moved ⊢
      omega

end Shares

namespace RequestCancellationState

structure Fits (state : RequestCancellationState) (index : Nat) (registration : RequestCancellationRegistration) :
    Prop where
  mutex : registration.stage = .storing ↔ state.callbacksMutex = some index
  listed : registration.key ≠ 0 → state.tableTaken = false → (registration.key, index) ∈ state.callbacks
  named : ∀ id, registration.stage = .resetting id → id ≠ 0 ∧ registration.id = 0
  fires : registration.starts ≠ 0 ∨ registration.stage = .invoking → state.reason ≠ .none

structure Sound (state : RequestCancellationState) : Prop where
  placed : ∀ index, (state.registrations[index]?.elim 0 RequestCancellationRegistration.share) +
    entriesOf index state.callbacks + total (CancelStage.holding index) state.cancels =
      state.registrations[index]?.elim 0 fun _ => 1
  fits : ∀ index registration, state.registrations[index]? = some registration → state.Fits index registration
  locked : ∀ index, state.callbacksMutex = some index → index < state.registrations.length
  guarded : state.callbacksMutex.isSome → state.tableTaken = false
  swaps : total CancelStage.swaps state.cancels + state.tableTaken.toNat = state.reason.count
  succeeds : total CancelStage.succeeds state.cancels = state.reason.count
  claims : ∀ reason, CancelStage.claiming reason ∈ state.cancels → reason ≠ .none
  emptied : state.tableTaken = true → state.callbacks = []
  numbered : 0 < state.nextCallbackId ∧ ∀ entry ∈ state.callbacks, entry.1 < state.nextCallbackId
  distinct : (state.callbacks.map Prod.fst).Nodup

variable {state next : RequestCancellationState} {registration changed : RequestCancellationRegistration}
  {reason : RequestCancellationReason} {stage : CancelStage} {index other pick : Nat}

section Put

@[simp] theorem put_reason : (state.put index changed).reason = state.reason := rfl

@[simp] theorem put_callbacksMutex : (state.put index changed).callbacksMutex = state.callbacksMutex := rfl

@[simp] theorem put_callbacks : (state.put index changed).callbacks = state.callbacks := rfl

@[simp] theorem put_cancels : (state.put index changed).cancels = state.cancels := rfl

@[simp] theorem put_tableTaken : (state.put index changed).tableTaken = state.tableTaken := rfl

@[simp] theorem put_registrations :
    (state.put index changed).registrations = state.registrations.set index changed := rfl

end Put

theorem initial_sound : initial.Sound := by
  constructor <;> simp [initial, entriesOf, RequestCancellationReason.count]

theorem Fits.same (fits : state.Fits other registration) (mutex : next.callbacksMutex = state.callbacksMutex)
    (taken : next.tableTaken = state.tableTaken) (table : next.callbacks = state.callbacks)
    (reason : state.reason ≠ .none → next.reason ≠ .none) : next.Fits other registration := by
  constructor
  case mutex => rw [mutex]; exact fits.mutex
  case listed => rw [taken, table]; exact fits.listed
  case named => exact fits.named
  case fires => exact fun started => reason (fits.fires started)

theorem Sound.register (sound : state.Sound) (stepped : state.step .register = some next) : next.Sound := by
  cases stepped
  constructor
  case placed =>
    intro other
    have before := sound.placed other
    simp only [lookup_concat]
    by_cases last : other = state.registrations.length
    next =>
      subst last
      simp [RequestCancellationRegistration.share] at before ⊢
      omega
    next => simpa only [last, if_false] using before
  case fits =>
    apply forall_lookup_concat
    next =>
      constructor <;> simp [RequestCancellationRegistration.key]
      intro held
      exact Nat.lt_irrefl _ (sound.locked _ held)
    next => exact fun other found present => (sound.fits other found present).same rfl rfl rfl id
  case locked =>
    intro index held
    simpa using Nat.lt_succ_of_lt (sound.locked index held)
  case guarded => exact sound.guarded
  case swaps => exact sound.swaps
  case succeeds => exact sound.succeeds
  case claims => exact sound.claims
  case emptied => exact sound.emptied
  case numbered => exact sound.numbered
  case distinct => exact sound.distinct

theorem Sound.put (sound : state.Sound) (here : state.registrations[index]? = some registration)
    (share : changed.share = registration.share) (fits : (state.put index changed).Fits index changed) :
    (state.put index changed).Sound := by
  constructor
  case placed =>
    intro other
    have before := sound.placed other
    simp only [put_registrations, put_callbacks, put_cancels, lookup_set here]
    by_cases same : other = index
    next =>
      subst same
      simpa [here, share] using before
    next => simpa only [same, if_false] using before
  case fits =>
    exact forall_lookup_set here fits fun other found _ present => (sound.fits other found present).same rfl rfl rfl id
  case locked =>
    intro index held
    simpa using sound.locked index held
  case guarded => exact sound.guarded
  case swaps => exact sound.swaps
  case succeeds => exact sound.succeeds
  case claims => exact sound.claims
  case emptied => exact sound.emptied
  case numbered => exact sound.numbered
  case distinct => exact sound.distinct

theorem Sound.putLocked (sound : state.Sound) (here : state.registrations[index]? = some registration)
    (share : changed.share = registration.share) {mutex : Option Nat}
    (fits : { state.put index changed with callbacksMutex := mutex }.Fits index changed)
    (free : ∀ other, other ≠ index → (mutex = some other ↔ state.callbacksMutex = some other))
    (guarded : mutex.isSome → state.tableTaken = false) :
    { state.put index changed with callbacksMutex := mutex }.Sound := by
  constructor
  case placed =>
    intro other
    have before := sound.placed other
    simp only [put_registrations, put_callbacks, put_cancels, lookup_set here]
    by_cases same : other = index
    next =>
      subst same
      simpa [here, share] using before
    next => simpa only [same, if_false] using before
  case fits =>
    apply forall_lookup_set here fits
    intro other found apart present
    have old := sound.fits other found present
    exact ⟨old.mutex.trans (free other apart).symm, old.listed, old.named, old.fires⟩
  case locked =>
    intro other held
    simp only [put_registrations, List.length_set]
    by_cases same : other = index
    next => exact same ▸ (List.getElem?_eq_some_iff.mp here).1
    next => exact sound.locked other ((free other same).mp held)
  case guarded => exact guarded
  case swaps => exact sound.swaps
  case succeeds => exact sound.succeeds
  case claims => exact sound.claims
  case emptied => exact sound.emptied
  case numbered => exact sound.numbered
  case distinct => exact sound.distinct

theorem Sound.untaken (sound : state.Sound) (live : state.reason = .none) : state.tableTaken = false := by
  have swaps := sound.swaps
  simp only [live, RequestCancellationReason.count] at swaps
  cases taken : state.tableTaken with
  | false => rfl
  | true => simp [taken] at swaps

theorem Sound.enter (sound : state.Sound) (here : state.registrations[index]? = some registration)
    (entered : registration.stage = .entered) (stepped : state.advance index registration = some next) :
    next.Sound := by
  have fits := sound.fits index registration here
  have key : registration.key = registration.id := by simp [RequestCancellationRegistration.key, entered]
  have listed := key ▸ fits.listed
  simp only [advance, entered] at stepped
  split at stepped
  · contradiction
  · rename_i free
    simp only [Option.not_isSome_iff_eq_none] at free
    split at stepped
    next cancelled =>
      cases stepped
      apply sound.put here
      · simp [RequestCancellationRegistration.share, entered]
      · constructor
        case mutex => simp [free]
        case listed => exact listed
        case named => simp
        case fires => exact fun _ => cancelled
    next live =>
      cases stepped
      apply sound.putLocked here
      · simp [RequestCancellationRegistration.share, entered]
      · constructor
        case mutex => simp
        case listed => exact listed
        case named => simp
        case fires => simpa [entered] using fits.fires
      · intro other apart
        simp [free, Ne.symm apart]
      · exact fun _ => sound.untaken (not_not.mp live)

theorem Sound.store (sound : state.Sound) (here : state.registrations[index]? = some registration)
    (storing : registration.stage = .storing) (stepped : state.advance index registration = some next) :
    next.Sound := by
  have fits := sound.fits index registration here
  have held : state.callbacksMutex = some index := fits.mutex.mp storing
  have untaken : state.tableTaken = false := sound.guarded (by simp [held])
  simp only [advance, storing, Option.some.injEq] at stepped
  subst stepped
  constructor
  case placed =>
    intro other
    have before := sound.placed other
    simp only [put_registrations, put_cancels, lookup_set here, entriesOf, total_append, total_cons,
      total_nil] at before ⊢
    by_cases same : other = index
    next =>
      subst same
      simp [here, RequestCancellationRegistration.share, storing] at before ⊢
      omega
    next => simpa [same, Ne.symm same] using before
  case fits =>
    refine forall_lookup_set here ?_ ?_
    next =>
      constructor
      case mutex => simp
      case listed => simp [RequestCancellationRegistration.key]
      case named => simp
      case fires => simpa [storing] using fits.fires
    next =>
      intro other found apart present
      have old := sound.fits other found present
      constructor
      case mutex => simpa [held, Ne.symm apart] using old.mutex
      case listed => exact fun named free => List.mem_append_left _ (old.listed named free)
      case named => exact old.named
      case fires => exact old.fires
  case locked => simp
  case guarded => simp
  case swaps => exact sound.swaps
  case succeeds => exact sound.succeeds
  case claims => exact sound.claims
  case emptied =>
    intro taken
    simp [untaken] at taken
  case numbered =>
    constructor
    · simp
    · intro entry member
      rcases List.mem_append.mp member with old | last
      · exact Nat.lt_succ_of_lt (sound.numbered.2 entry old)
      · simp [List.mem_singleton.mp last]
  case distinct =>
    simp only [List.map_append, List.map_cons, List.map_nil]
    apply List.Nodup.append sound.distinct (List.nodup_singleton _)
    simp only [List.disjoint_singleton, List.mem_map, not_exists, not_and]
    exact fun entry member same => Nat.ne_of_lt (sound.numbered.2 entry member) same

theorem Sound.invoke (sound : state.Sound) (here : state.registrations[index]? = some registration)
    (invoking : registration.stage = .invoking) (stepped : state.advance index registration = some next) :
    next.Sound := by
  have fits := sound.fits index registration here
  have key : registration.key = registration.id := by simp [RequestCancellationRegistration.key, invoking]
  have listed := key ▸ fits.listed
  simp only [advance, invoking, Option.some.injEq] at stepped
  subst stepped
  apply sound.put here
  · simp [RequestCancellationRegistration.share, invoking]
    omega
  · constructor
    case mutex => simpa [invoking] using fits.mutex
    case listed => exact listed
    case named => simp
    case fires => exact fun _ => fits.fires (.inr invoking)

theorem Sound.erase {id : Nat} (sound : state.Sound) (here : state.registrations[index]? = some registration)
    (resetting : registration.stage = .resetting id) (stepped : state.advance index registration = some next) :
    next.Sound := by
  have fits := sound.fits index registration here
  obtain ⟨named, blank⟩ := fits.named id resetting
  have key : registration.key = id := by simp [RequestCancellationRegistration.key, resetting]
  have inside : index < state.registrations.length := (List.getElem?_eq_some_iff.mp here).1
  simp only [advance, resetting] at stepped
  split at stepped
  · contradiction
  rename_i free
  simp only [Option.not_isSome_iff_eq_none] at free
  simp only [Option.some.injEq] at stepped
  subst stepped
  constructor
  case placed =>
    intro other
    have before := sound.placed other
    simp only [put_registrations, put_cancels, lookup_set here]
    cases taken : state.tableTaken with
    | true =>
      have empty := sound.emptied taken
      by_cases same : other = index
      next =>
        subst same
        simpa [here, RequestCancellationRegistration.share, resetting, empty] using before
      next => simpa [same, empty] using before
    | false =>
      have moved := @entriesOf_filter index other id _ sound.distinct (key ▸ fits.listed (key ▸ named) taken)
      by_cases same : other = index
      next =>
        subst same
        rw [here] at before
        simp [RequestCancellationRegistration.share, resetting] at before moved ⊢
        split at before <;> omega
      next =>
        simp only [same, if_false, Nat.add_zero] at moved ⊢
        simpa only [moved] using before
  case fits =>
    refine forall_lookup_set here ?_ ?_
    next =>
      constructor
      case mutex => simp [free]
      case listed => simp [RequestCancellationRegistration.key, blank]
      case named => simp
      case fires => simpa [resetting] using fits.fires
    next =>
      intro other found apart present
      have old := sound.fits other found present
      constructor
      case mutex => exact old.mutex
      case listed =>
        intro named' untaken
        have mine := key ▸ fits.listed (key ▸ named) untaken
        refine List.mem_filter.mpr ⟨old.listed named' untaken, decide_eq_true fun same => apart ?_⟩
        have both := List.inj_on_of_nodup_map sound.distinct (old.listed named' untaken) mine same
        exact (Prod.ext_iff.mp both).2
      case named => exact old.named
      case fires => exact old.fires
  case locked => simp [free]
  case guarded => simp [free]
  case swaps => exact sound.swaps
  case succeeds => exact sound.succeeds
  case claims => exact sound.claims
  case emptied =>
    intro taken
    simp [sound.emptied taken]
  case numbered => exact ⟨sound.numbered.1, fun entry member => sound.numbered.2 entry (List.mem_filter.mp member).1⟩
  case distinct => exact sound.distinct.sublist (List.filter_sublist.map _)

theorem Sound.advance (sound : state.Sound) (stepped : state.step (.advance index) = some next) : next.Sound := by
  obtain ⟨registration, here, stepped⟩ := Option.bind_eq_some_iff.mp stepped
  cases stage : registration.stage with
  | entered => exact sound.enter here stage stepped
  | storing => exact sound.store here stage stepped
  | invoking => exact sound.invoke here stage stepped
  | held => simp [RequestCancellationState.advance, stage] at stepped
  | resetting id => exact sound.erase here stage stepped

theorem Sound.reset (sound : state.Sound) (stepped : state.step (.reset index) = some next) : next.Sound := by
  obtain ⟨registration, here, stepped⟩ := Option.bind_eq_some_iff.mp stepped
  have fits := sound.fits index registration here
  cases held : registration.stage with
  | held =>
    have key : registration.key = registration.id := by simp [RequestCancellationRegistration.key, held]
    simp only [RequestCancellationState.reset, held] at stepped
    split at stepped
    next unnamed =>
      cases stepped
      apply sound.put here
      · simp [RequestCancellationRegistration.share, held]
      · exact ⟨by simpa [held] using fits.mutex, by simp [RequestCancellationRegistration.key, unnamed],
          by simp, by simpa [held] using fits.fires⟩
    next named =>
      cases stepped
      apply sound.put here
      · simp [RequestCancellationRegistration.share, held]
      · exact ⟨by simpa [held] using fits.mutex, by simpa [RequestCancellationRegistration.key, held] using fits.listed,
          by simpa using named, by simpa [held] using fits.fires⟩
  | entered => simp [RequestCancellationState.reset, held] at stepped
  | storing => simp [RequestCancellationState.reset, held] at stepped
  | invoking => simp [RequestCancellationState.reset, held] at stepped
  | resetting id => simp [RequestCancellationState.reset, held] at stepped

theorem Sound.putCancel {before after : CancelStage} (sound : state.Sound) (here : state.cancels[index]? = some before)
    (holding : ∀ other, after.holding other = before.holding other) (swaps : after.swaps = before.swaps)
    (succeeds : after.succeeds = before.succeeds) (claims : ∀ reason, after = .claiming reason → reason ≠ .none) :
    (state.putCancel index after).Sound := by
  constructor
  case placed =>
    intro other
    have moved := @total_set _ state.cancels index before after (CancelStage.holding other) here
    have same := Nat.add_right_cancel (holding other ▸ moved)
    have placed := sound.placed other
    rw [← same] at placed
    exact placed
  case fits => exact fun other found present => (sound.fits other found present).same rfl rfl rfl id
  case locked => exact sound.locked
  case guarded => exact sound.guarded
  case swaps =>
    have moved := @total_set _ state.cancels index before after CancelStage.swaps here
    have same := Nat.add_right_cancel (swaps ▸ moved)
    exact same ▸ sound.swaps
  case succeeds =>
    have moved := @total_set _ state.cancels index before after CancelStage.succeeds here
    have same := Nat.add_right_cancel (succeeds ▸ moved)
    exact same ▸ sound.succeeds
  case claims =>
    intro reason member
    rcases List.mem_or_eq_of_mem_set member with old | changed
    · exact sound.claims reason old
    · exact claims reason changed.symm
  case emptied => exact sound.emptied
  case numbered => exact sound.numbered
  case distinct => exact sound.distinct

theorem Sound.claim (sound : state.Sound) (here : state.cancels[index]? = some (.claiming reason))
    (live : state.reason = .none) (reasoned : reason ≠ .none) :
    { state.putCancel index .swapping with reason := reason }.Sound := by
  constructor
  case placed =>
    intro other
    have moved := @total_set _ state.cancels index _ CancelStage.swapping (CancelStage.holding other) here
    have same := Nat.add_right_cancel moved
    have placed := sound.placed other
    rw [← same] at placed
    exact placed
  case fits => exact fun other found present => (sound.fits other found present).same rfl rfl rfl fun _ => reasoned
  case locked => exact sound.locked
  case guarded => exact sound.guarded
  case swaps =>
    have moved := @total_set _ state.cancels index _ CancelStage.swapping CancelStage.swaps here
    have balance := sound.swaps
    simp only [CancelStage.swaps, live, RequestCancellationReason.count] at moved balance
    simp only [RequestCancellationState.putCancel, RequestCancellationReason.count_eq_one reasoned]
    omega
  case succeeds =>
    have moved := @total_set _ state.cancels index _ CancelStage.swapping CancelStage.succeeds here
    have balance := sound.succeeds
    simp only [CancelStage.succeeds, live, RequestCancellationReason.count] at moved balance
    simp only [RequestCancellationState.putCancel, RequestCancellationReason.count_eq_one reasoned]
    omega
  case claims =>
    intro reason member
    rcases List.mem_or_eq_of_mem_set member with old | changed
    · exact sound.claims reason old
    · contradiction
  case emptied => exact sound.emptied
  case numbered => exact sound.numbered
  case distinct => exact sound.distinct

theorem Sound.swap (sound : state.Sound) (here : state.cancels[index]? = some .swapping)
    (free : state.callbacksMutex = none) :
    { state.putCancel index (.running state.callbacks) with callbacks := [], tableTaken := true }.Sound := by
  constructor
  case placed =>
    intro other
    have moved := @total_set _ state.cancels index _ (.running state.callbacks) (CancelStage.holding other) here
    have placed := sound.placed other
    simp only [CancelStage.holding, Nat.add_zero] at moved
    simp only [RequestCancellationState.putCancel, moved, entriesOf, total_nil] at placed ⊢
    omega
  case fits =>
    intro other found present
    have old := sound.fits other found present
    exact ⟨old.mutex, fun _ untaken => by simp at untaken, old.named, old.fires⟩
  case locked => exact sound.locked
  case guarded => simp [RequestCancellationState.putCancel, free]
  case swaps =>
    have moved := @total_set _ state.cancels index _ (.running state.callbacks) CancelStage.swaps here
    have balance := sound.swaps
    have bounded : state.reason.count ≤ 1 := by cases state.reason <;> simp [RequestCancellationReason.count]
    simp only [CancelStage.swaps] at moved balance
    simp only [RequestCancellationState.putCancel, Bool.toNat_true]
    omega
  case succeeds =>
    have moved := @total_set _ state.cancels index _ (.running state.callbacks) CancelStage.succeeds here
    have same := Nat.add_right_cancel moved
    exact same ▸ sound.succeeds
  case claims =>
    intro reason member
    rcases List.mem_or_eq_of_mem_set member with old | changed
    · exact sound.claims reason old
    · contradiction
  case emptied => simp
  case numbered => exact ⟨sound.numbered.1, by simp⟩
  case distinct => simp

theorem Sound.reasoned (sound : state.Sound) (here : state.cancels[index]? = some stage) (succeeds : stage.succeeds = 1) :
    state.reason ≠ .none := by
  intro live
  have balance := sound.succeeds
  have counted := @le_total _ _ _ _ CancelStage.succeeds here
  simp only [live, RequestCancellationReason.count] at balance
  omega

theorem Sound.fire {taken : List (Nat × Nat)} {entry : Nat × Nat} (sound : state.Sound)
    (here : state.cancels[index]? = some (.running taken)) (picked : taken[pick]? = some entry)
    (registered : state.registrations[entry.2]? = some registration) :
    ((state.put entry.2 { registration with starts := registration.starts + 1 }).putCancel index
      (.running (taken.eraseIdx pick))).Sound := by
  constructor
  case placed =>
    intro other
    have moved := @total_set _ state.cancels index _ (.running (taken.eraseIdx pick)) (CancelStage.holding other) here
    have left := @total_eraseIdx _ taken pick entry (fun entry => if entry.2 = other then 1 else 0) picked
    have placed := sound.placed other
    simp only [CancelStage.holding, entriesOf] at moved placed
    simp only [RequestCancellationState.putCancel, put_registrations, put_callbacks, put_cancels, lookup_set registered,
      entriesOf]
    by_cases same : other = entry.2
    next =>
      subst same
      simp [registered, RequestCancellationRegistration.share] at placed left ⊢
      omega
    next =>
      simp only [same, Ne.symm same, if_false] at left ⊢
      omega
  case fits =>
    have fits := sound.fits entry.2 registration registered
    have reasoned := sound.reasoned here rfl
    refine forall_lookup_set registered ⟨fits.mutex, fits.listed, fits.named, fun _ => reasoned⟩ ?_
    exact fun other found _ present => (sound.fits other found present).same rfl rfl rfl id
  case locked =>
    intro index held
    simpa [RequestCancellationState.putCancel] using sound.locked index held
  case guarded => exact sound.guarded
  case swaps =>
    have moved := @total_set _ state.cancels index _ (.running (taken.eraseIdx pick)) CancelStage.swaps here
    have same := Nat.add_right_cancel moved
    exact same ▸ sound.swaps
  case succeeds =>
    have moved := @total_set _ state.cancels index _ (.running (taken.eraseIdx pick)) CancelStage.succeeds here
    have same := Nat.add_right_cancel moved
    exact same ▸ sound.succeeds
  case claims =>
    intro reason member
    rcases List.mem_or_eq_of_mem_set member with old | changed
    · exact sound.claims reason old
    · contradiction
  case emptied => exact sound.emptied
  case numbered => exact sound.numbered
  case distinct => exact sound.distinct

theorem Sound.proceed (sound : state.Sound) (stepped : state.step (.proceed index pick) = some next) : next.Sound := by
  obtain ⟨stage, here, stepped⟩ := Option.bind_eq_some_iff.mp stepped
  have member : stage ∈ state.cancels := List.mem_of_getElem? here
  cases stage with
  | entered reason =>
    simp only [RequestCancellationState.proceed] at stepped
    split at stepped
    next unnamed =>
      cases stepped
      exact sound.putCancel here (fun _ => rfl) rfl rfl (by simp)
    next named =>
      split at stepped
      · cases stepped
        exact sound.putCancel here (fun _ => rfl) rfl rfl (by simp)
      · cases stepped
        exact sound.putCancel here (fun _ => rfl) rfl rfl (by simpa using named)
  | claiming reason =>
    simp only [RequestCancellationState.proceed] at stepped
    split at stepped
    next live =>
      cases stepped
      exact sound.claim here live (sound.claims reason member)
    next =>
      cases stepped
      exact sound.putCancel here (fun _ => rfl) rfl rfl (by simp)
  | swapping =>
    simp only [RequestCancellationState.proceed] at stepped
    split at stepped
    · contradiction
    next free =>
      cases stepped
      exact sound.swap here (by simpa using free)
  | running taken =>
    simp only [RequestCancellationState.proceed] at stepped
    split at stepped
    next finished =>
      cases stepped
      subst finished
      exact sound.putCancel here (fun _ => rfl) rfl rfl (by simp)
    next =>
      obtain ⟨entry, picked, stepped⟩ := Option.bind_eq_some_iff.mp stepped
      obtain ⟨registration, registered, stepped⟩ := Option.map_eq_some_iff.mp stepped
      exact stepped ▸ sound.fire here picked registered
  | returned answer => simp [RequestCancellationState.proceed] at stepped

theorem Sound.cancel (sound : state.Sound) (stepped : state.step (.cancel reason) = some next) : next.Sound := by
  cases stepped
  constructor
  case placed => simpa [CancelStage.holding] using sound.placed
  case fits => exact fun other found present => (sound.fits other found present).same rfl rfl rfl id
  case locked => exact sound.locked
  case guarded => exact sound.guarded
  case swaps => simpa [CancelStage.swaps] using sound.swaps
  case succeeds => simpa [CancelStage.succeeds] using sound.succeeds
  case claims => simpa using sound.claims
  case emptied => exact sound.emptied
  case numbered => exact sound.numbered
  case distinct => exact sound.distinct

theorem Sound.drain (sound : state.Sound) (stepped : state.step .drain = some next) : next.Sound := by
  cases stepped
  constructor
  case placed => exact sound.placed
  case fits => exact fun other found present => (sound.fits other found present).same rfl rfl rfl id
  case locked => exact sound.locked
  case guarded => exact sound.guarded
  case swaps => exact sound.swaps
  case succeeds => exact sound.succeeds
  case claims => exact sound.claims
  case emptied => exact sound.emptied
  case numbered => exact sound.numbered
  case distinct => exact sound.distinct

theorem Sound.step {action : CancellationAction} (sound : state.Sound) (stepped : state.step action = some next) :
    next.Sound := by
  cases action with
  | register => exact sound.register stepped
  | advance index => exact sound.advance stepped
  | reset index => exact sound.reset stepped
  | cancel reason => exact sound.cancel stepped
  | proceed index pick => exact sound.proceed stepped
  | drain => exact sound.drain stepped

theorem run_sound {actions : List CancellationAction} (ran : runSteps RequestCancellationState.step initial actions = some state) :
    state.Sound :=
  runSteps_keeps Sound.step initial_sound ran

structure Quiet (state : RequestCancellationState) : Prop where
  registered : ∀ registration ∈ state.registrations, registration.stage = .held
  cancelled : ∀ stage ∈ state.cancels, ∃ answer, stage = .returned answer

theorem Sound.share_le (sound : state.Sound) (here : state.registrations[index]? = some registration) :
    registration.share ≤ 1 := by
  have placed := sound.placed index
  simp only [here, Option.elim_some] at placed
  omega

theorem Sound.share_inTime (sound : state.Sound) (here : state.registrations[index]? = some registration)
    (inTime : registration.resetInTime = true) : registration.starts = 0 := by
  have bounded := sound.share_le here
  simp only [RequestCancellationRegistration.share, inTime, if_true] at bounded
  omega

theorem Sound.unmoved (sound : state.Sound) (quiet : state.Quiet) (idle : .returned true ∉ state.cancels)
    (here : state.registrations[index]? = some registration) : registration.starts = 0 := by
  have none : total CancelStage.succeeds state.cancels = 0 := by
    apply total_eq_zero_iff.mpr
    intro stage member
    obtain ⟨answer, rfl⟩ := quiet.cancelled stage member
    cases answer with
    | true => exact absurd member idle
    | false => rfl
  have live : state.reason = .none := by
    have balance := sound.succeeds
    by_contra reasoned
    rw [RequestCancellationReason.count_eq_one reasoned] at balance
    omega
  by_contra started
  exact (sound.fits index registration here).fires (.inl started) live

theorem Sound.fired (sound : state.Sound) (quiet : state.Quiet) (done : .returned true ∈ state.cancels)
    (here : state.registrations[index]? = some registration) :
    registration.starts = if registration.resetInTime then 0 else 1 := by
  obtain ⟨place, there⟩ := List.mem_iff_getElem?.mp done
  have reasoned := sound.reasoned there rfl
  have swapped : total CancelStage.swaps state.cancels = 0 := by
    apply total_eq_zero_iff.mpr
    intro stage member
    obtain ⟨answer, rfl⟩ := quiet.cancelled stage member
    rfl
  have idle : total (CancelStage.holding index) state.cancels = 0 := by
    apply total_eq_zero_iff.mpr
    intro stage member
    obtain ⟨answer, rfl⟩ := quiet.cancelled stage member
    rfl
  have taken : state.tableTaken = true := by
    have balance := sound.swaps
    rw [swapped, RequestCancellationReason.count_eq_one reasoned] at balance
    cases taken : state.tableTaken with
    | true => rfl
    | false => simp [taken] at balance
  have placed := sound.placed index
  have held := quiet.registered registration (List.mem_of_getElem? here)
  simp [here, sound.emptied taken, entriesOf, idle, RequestCancellationRegistration.share, held] at placed
  split at placed <;> simp_all

structure FiresAsRegistered (state : RequestCancellationState) : Prop where
  once : ∀ registration ∈ state.registrations, registration.starts ≤ 1
  inTime : ∀ registration ∈ state.registrations, registration.resetInTime = true → registration.starts = 0
  late : ∀ (action : CancellationAction) (next : RequestCancellationState) (index : Nat)
    (registration later : RequestCancellationRegistration), state.step action = some next →
      state.registrations[index]? = some registration → next.registrations[index]? = some later →
        registration.starts < later.starts → later.resetInTime = false
  cancelled : state.Quiet → .returned true ∈ state.cancels → ∀ registration ∈ state.registrations,
    registration.starts = if registration.resetInTime then 0 else 1
  uncancelled : state.Quiet → .returned true ∉ state.cancels → ∀ registration ∈ state.registrations,
    registration.starts = 0

theorem callbacks_fire_as_registered {actions : List CancellationAction}
    (ran : runSteps RequestCancellationState.step initial actions = some state) : state.FiresAsRegistered := by
  have sound := run_sound ran
  constructor
  case once =>
    intro registration member
    obtain ⟨index, here⟩ := List.mem_iff_getElem?.mp member
    have bounded := sound.share_le here
    unfold RequestCancellationRegistration.share at bounded
    omega
  case inTime =>
    intro registration member inTime
    obtain ⟨index, here⟩ := List.mem_iff_getElem?.mp member
    exact sound.share_inTime here inTime
  case late =>
    intro action next index registration later stepped _ there more
    by_contra inTime
    have still := (sound.step stepped).share_inTime there (by simpa using inTime)
    omega
  case cancelled =>
    intro quiet done registration member
    obtain ⟨index, here⟩ := List.mem_iff_getElem?.mp member
    exact sound.fired quiet done here
  case uncancelled =>
    intro quiet idle registration member
    obtain ⟨index, here⟩ := List.mem_iff_getElem?.mp member
    exact sound.unmoved quiet idle here

def oneCancelled : List CancellationAction :=
  [.register, .advance 0, .advance 0, .cancel .clientDisconnected, .proceed 0 0, .proceed 0 0, .proceed 0 0, .proceed 0 0,
    .proceed 0 0]

theorem callbacks_fire_as_registered_one_cancelled :
    ∃ state, runSteps RequestCancellationState.step initial oneCancelled = some state ∧ state.FiresAsRegistered :=
  ⟨_, rfl, @callbacks_fire_as_registered _ oneCancelled rfl⟩

theorem callbacks_fire_otherwise :
    (∃ state next, runSteps RequestCancellationState.step initial
        [.register, .advance 0, .advance 0, .cancel .clientDisconnected, .proceed 0 0, .proceed 0 0, .proceed 0 0,
          .reset 0, .advance 0] = some state ∧
      state.registrations = [⟨.held, 0, 0, true, false⟩] ∧ state.step (.proceed 0 0) = some next ∧
      next.registrations = [⟨.held, 0, 1, true, false⟩]) ∧
    (∃ called state, runSteps RequestCancellationState.step initial
        [.register, .advance 0, .advance 0, .cancel .clientDisconnected] = some called ∧
      called.registrations = [⟨.held, 1, 0, false, false⟩] ∧ runSteps RequestCancellationState.step called
        [.proceed 0 0, .proceed 0 0, .reset 0, .advance 0, .proceed 0 0, .proceed 0 0] = some state ∧
      state.cancels = [.returned true] ∧ state.registrations = [⟨.held, 0, 0, true, true⟩]) ∧
    (∃ state, runSteps RequestCancellationState.step initial
        [.register, .advance 0, .advance 0, .drain, .cancel .shutdown, .proceed 0 0] = some state ∧
      state.cancels = [.returned false] ∧ state.registrations = [⟨.held, 1, 0, false, false⟩]) :=
  ⟨⟨_, _, rfl, rfl, rfl, rfl⟩, ⟨_, _, rfl, rfl, rfl, rfl, rfl⟩, ⟨_, rfl, rfl, rfl⟩⟩

end RequestCancellationState

end Cancellation

end SubConverter.Server
