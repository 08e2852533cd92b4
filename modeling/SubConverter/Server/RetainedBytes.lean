import SubConverter.Lib.Interleaving

set_option autoImplicit false

namespace SubConverter.Server

structure RetainedCounters where
  used : Nat
  limit : Nat
  rejected : Nat
deriving DecidableEq, Repr

/-- Where a call of `tryRetainResponseBytes` stands; `current` is what it last read of the counter. -/
inductive RetainStep where
  | load
  | attempt (current : Nat)
deriving DecidableEq, Repr

inductive RetainOutcome where
  | again (step : RetainStep)
  | retained
  | refused
deriving DecidableEq, Repr

namespace RetainedCounters

/-- One atomic step of `tryRetainResponseBytes` for a nonzero amount. A weak exchange may fail without a reason. -/
def tryRetain (counters : RetainedCounters) (bytes : Nat) (spurious : Bool) :
    RetainStep → RetainedCounters × RetainOutcome
  | .load => (counters, .again (.attempt counters.used))
  | .attempt current =>
    if uint64Max - current < bytes ∨
        (counters.limit ≠ 0 ∧ (counters.limit < bytes ∨ counters.limit - bytes < current)) then
      ({ counters with rejected := counters.rejected + 1 }, .refused)
    else if counters.used = current ∧ spurious = false then
      ({ counters with used := current + bytes }, .retained)
    else (counters, .again (.attempt counters.used))

def release (counters : RetainedCounters) (bytes : Nat) : RetainedCounters :=
  if bytes ≠ 0 then { counters with used := sub64 counters.used bytes } else counters

end RetainedCounters

inductive LeaseStage where
  | idle
  | acquiring (bytes : Nat) (step : RetainStep)
  | storing (bytes : Nat)
  | retaining (bytes : Nat) (step : RetainStep)
  | adding (bytes : Nat)
  | releasing (bytes : Nat)
  | replacing (bytes source : Nat)
  | taking (source : Nat)
  | destroying (bytes : Nat)
  | destroyed
deriving DecidableEq, Repr

structure RetainedResponseByteLease where
  bytes : Nat
  stage : LeaseStage
deriving DecidableEq, Repr

inductive ContextStage where
  | live
  | destroying (bytes : Nat)
  | destroyed
deriving DecidableEq, Repr

structure RetainingContext where
  retained : Nat
  stage : ContextStage
deriving DecidableEq, Repr

inductive RetainingProgress where
  | retaining (bytes : Nat) (step : RetainStep)
  | adding (bytes : Nat)
  | loading (bytes : Nat)
  | releasing (bytes current : Nat)
  | subtracting (released : Nat)
  | returned
deriving DecidableEq, Repr

structure RetainingCall where
  context : Nat
  progress : RetainingProgress
deriving DecidableEq, Repr

structure RetainedResponseBytes where
  counters : RetainedCounters
  leases : List RetainedResponseByteLease
  contexts : List RetainingContext
  calls : List RetainingCall
deriving DecidableEq, Repr

inductive RetainAction where
  | createLease
  | moveLease (source : Nat)
  | acquire (lease bytes : Nat)
  | retain (lease bytes : Nat)
  | reset (lease : Nat)
  | assign (lease source : Nat)
  | destroyLease (lease : Nat)
  | advanceLease (lease : Nat) (spurious : Bool)
  | createContext
  | retainResponseBytes (context bytes : Nat)
  | releaseResponseBytes (context bytes : Nat)
  | advanceCall (call : Nat) (spurious : Bool)
  | destroyContext (context : Nat)
  | finishContext (context : Nat)
deriving DecidableEq, Repr

namespace RetainedResponseByteLease

def begin (lease : RetainedResponseByteLease) : RetainAction → Option RetainedResponseByteLease
  | .acquire _ bytes =>
    if lease.bytes ≠ 0 then some lease
    else if bytes = 0 then some { lease with bytes := 0 }
    else some { lease with stage := .acquiring bytes .load }
  | .retain _ bytes => if bytes = 0 then some lease else some { lease with stage := .retaining bytes .load }
  | .reset _ => some ⟨0, .releasing lease.bytes⟩
  | .assign target source => if target = source then some lease else some ⟨0, .replacing lease.bytes source⟩
  | .destroyLease _ => some ⟨0, .destroying lease.bytes⟩
  | _ => none

/-- The next step of the owner's call, all but the second half of a move. -/
def advance (lease : RetainedResponseByteLease) (counters : RetainedCounters) (spurious : Bool) :
    Option (RetainedResponseByteLease × RetainedCounters) :=
  match lease.stage with
  | .acquiring bytes step =>
    match counters.tryRetain bytes spurious step with
    | (counters, .again step) => some ({ lease with stage := .acquiring bytes step }, counters)
    | (counters, .retained) => some ({ lease with stage := .storing bytes }, counters)
    | (counters, .refused) => some ({ lease with stage := .idle }, counters)
  | .storing bytes => some (⟨bytes, .idle⟩, counters)
  | .retaining bytes step =>
    match counters.tryRetain bytes spurious step with
    | (counters, .again step) => some ({ lease with stage := .retaining bytes step }, counters)
    | (counters, .retained) => some ({ lease with stage := .adding bytes }, counters)
    | (counters, .refused) => some ({ lease with stage := .idle }, counters)
  | .adding bytes => some (⟨add64 lease.bytes bytes, .idle⟩, counters)
  | .releasing bytes => some ({ lease with stage := .idle }, counters.release bytes)
  | .replacing bytes source => some ({ lease with stage := .taking source }, counters.release bytes)
  | .destroying bytes => some ({ lease with stage := .destroyed }, counters.release bytes)
  | .idle | .taking _ | .destroyed => none

end RetainedResponseByteLease

namespace RetainingContext

def advance (context : RetainingContext) (counters : RetainedCounters) (spurious : Bool) :
    RetainingProgress → Option (RetainingContext × RetainedCounters × RetainingProgress)
  | .retaining bytes step =>
    match counters.tryRetain bytes spurious step with
    | (counters, .again step) => some (context, counters, .retaining bytes step)
    | (counters, .retained) => some (context, counters, .adding bytes)
    | (counters, .refused) => some (context, counters, .returned)
  | .adding bytes => some ({ context with retained := add64 context.retained bytes }, counters, .returned)
  | .loading bytes => some (context, counters, .releasing bytes context.retained)
  | .releasing bytes current =>
    if current ≠ 0 ∧ bytes ≠ 0 then
      let released := min current bytes
      if context.retained = current ∧ spurious = false then
        some ({ context with retained := current - released }, counters, .subtracting released)
      else some (context, counters, .releasing bytes context.retained)
    else some (context, counters, .returned)
  | .subtracting released => some (context, counters.release released, .returned)
  | .returned => none

end RetainingContext

namespace RetainedResponseBytes

def initial (limit : Nat) : RetainedResponseBytes :=
  { counters := ⟨0, limit, 0⟩, leases := [], contexts := [], calls := [] }

def putLease (state : RetainedResponseBytes) (index : Nat) (lease : RetainedResponseByteLease) : RetainedResponseBytes :=
  { state with leases := state.leases.set index lease }

/-- The lease that a call of its owner starts on; nothing while another of its calls runs. -/
def idleLease (state : RetainedResponseBytes) (index : Nat) : Option RetainedResponseByteLease :=
  state.leases[index]?.filter fun lease => lease.stage = .idle

def liveContext (state : RetainedResponseBytes) (index : Nat) : Option RetainingContext :=
  state.contexts[index]?.filter fun context => context.stage = .live

def begin (state : RetainedResponseBytes) (index : Nat) (action : RetainAction) : Option RetainedResponseBytes :=
  (state.idleLease index).bind fun lease => (lease.begin action).map (state.putLease index)

def call (state : RetainedResponseBytes) (context : Nat) (progress : RetainingProgress) : Option RetainedResponseBytes :=
  (state.liveContext context).map fun _ => { state with calls := state.calls ++ [⟨context, progress⟩] }

def step (state : RetainedResponseBytes) (action : RetainAction) : Option RetainedResponseBytes :=
  match action with
  | .createLease => some { state with leases := state.leases ++ [⟨0, .idle⟩] }
  | .moveLease source =>
    (state.idleLease source).map fun lease =>
      { state with leases := state.leases.set source ⟨0, .idle⟩ ++ [⟨lease.bytes, .idle⟩] }
  | .acquire index _ => state.begin index action
  | .retain index _ => state.begin index action
  | .reset index => state.begin index action
  | .assign index _ => state.begin index action
  | .destroyLease index => state.begin index action
  | .advanceLease index spurious =>
    state.leases[index]?.bind fun lease =>
      match lease.stage with
      | .taking source =>
        (state.idleLease source).map fun taken =>
          (state.putLease source ⟨0, .idle⟩).putLease index ⟨taken.bytes, .idle⟩
      | _ =>
        (lease.advance state.counters spurious).map fun (lease, counters) =>
          { state.putLease index lease with counters := counters }
  | .createContext => some { state with contexts := state.contexts ++ [⟨0, .live⟩] }
  | .retainResponseBytes context bytes =>
    state.call context (if bytes = 0 then .returned else .retaining bytes .load)
  | .releaseResponseBytes context bytes => state.call context (.loading bytes)
  | .advanceCall index spurious =>
    state.calls[index]?.bind fun call =>
      state.contexts[call.context]?.bind fun context =>
        (context.advance state.counters spurious call.progress).map fun (context, counters, progress) =>
          { state with
            contexts := state.contexts.set call.context context
            calls := state.calls.set index { call with progress := progress }
            counters := counters }
  -- The last owner of a context destroys it, so no call on it is in progress.
  | .destroyContext index =>
    if ∀ call ∈ state.calls, call.context = index → call.progress = .returned then
      (state.liveContext index).map fun context =>
        { state with contexts := state.contexts.set index { context with stage := .destroying context.retained } }
    else none
  | .finishContext index =>
    state.contexts[index]?.bind fun context =>
      match context.stage with
      | .destroying bytes =>
        some { state with
          contexts := state.contexts.set index { context with stage := .destroyed }
          counters := state.counters.release bytes }
      | _ => none

end RetainedResponseBytes

section Amounts

namespace RetainedResponseByteLease

def held (lease : RetainedResponseByteLease) : Nat :=
  lease.bytes + match lease.stage with
    | .storing bytes | .adding bytes | .releasing bytes | .replacing bytes _ | .destroying bytes => bytes
    | _ => 0

def Fits (lease : RetainedResponseByteLease) : Prop :=
  match lease.stage with
  | .idle | .retaining _ _ | .adding _ => True
  | _ => lease.bytes = 0

end RetainedResponseByteLease

def RetainingContext.held (context : RetainingContext) : Nat :=
  match context.stage with
  | .live => context.retained
  | .destroying bytes => bytes
  | .destroyed => 0

def RetainingProgress.transit : RetainingProgress → Nat
  | .adding bytes | .subtracting bytes => bytes
  | _ => 0

end Amounts

section Steps

variable {counters later : RetainedCounters} {bytes current : Nat} {spurious : Bool} {retain : RetainStep}
  {lease changed : RetainedResponseByteLease} {context altered : RetainingContext}
  {progress moved : RetainingProgress} {action : RetainAction}

structure RetainedCounters.Bounded (counters : RetainedCounters) : Prop where
  positive : counters.limit ≠ 0
  small : counters.limit < 2 ^ 64
  within : counters.used ≤ counters.limit

structure Moved (counters later : RetainedCounters) (taken given : Nat) : Prop where
  balance : later.used + given = counters.used + taken
  limit : later.limit = counters.limit
  bounded : later.Bounded

theorem RetainedCounters.Bounded.unmoved (bounded : counters.Bounded) : Moved counters counters 0 0 :=
  ⟨rfl, rfl, bounded⟩

theorem tryRetain_moved (bounded : counters.Bounded) :
    Moved counters (counters.tryRetain bytes spurious retain).1
      (if (counters.tryRetain bytes spurious retain).2 = .retained then bytes else 0) 0 := by
  cases retain with
  | load => simpa [RetainedCounters.tryRetain] using bounded.unmoved
  | attempt current =>
    simp only [RetainedCounters.tryRetain]
    split
    next refused =>
      simp only [reduceCtorEq, if_false]
      exact ⟨rfl, rfl, bounded.positive, bounded.small, bounded.within⟩
    next allowed =>
      have positive := bounded.positive
      split
      next exchanged =>
        simp only [if_true]
        constructor
        case balance => simp [exchanged.1]
        case limit => rfl
        case bounded =>
          refine ⟨positive, bounded.small, ?_⟩
          simp only
          omega
      next => simpa using bounded.unmoved

theorem release_moved (bounded : counters.Bounded) (covered : bytes ≤ counters.used) :
    Moved counters (counters.release bytes) 0 bytes := by
  have within := bounded.within
  have small := bounded.small
  unfold RetainedCounters.release
  split
  next =>
    have exact' : sub64 counters.used bytes = counters.used - bytes := sub64_eq covered (by omega)
    constructor
    case balance =>
      simp only [exact']
      omega
    case limit => rfl
    case bounded =>
      refine ⟨bounded.positive, small, ?_⟩
      simp only [exact']
      omega
  next none =>
    simp only [ne_eq, not_not] at none
    exact none ▸ bounded.unmoved

theorem begin_held (fits : lease.Fits) (idle : lease.stage = .idle) (begun : lease.begin action = some changed) :
    changed.held = lease.held ∧ changed.Fits := by
  cases action with
  | acquire index bytes =>
    simp only [RetainedResponseByteLease.begin] at begun
    split at begun
    · cases begun
      exact ⟨rfl, fits⟩
    next empty =>
      simp only [ne_eq, not_not] at empty
      split at begun <;> cases begun <;>
        simp [RetainedResponseByteLease.held, RetainedResponseByteLease.Fits, idle, empty]
  | retain index bytes =>
    simp only [RetainedResponseByteLease.begin] at begun
    split at begun
    · cases begun
      exact ⟨rfl, fits⟩
    · cases begun
      simp [RetainedResponseByteLease.held, RetainedResponseByteLease.Fits, idle]
  | reset index =>
    cases begun
    simp [RetainedResponseByteLease.held, RetainedResponseByteLease.Fits, idle]
  | assign target source =>
    simp only [RetainedResponseByteLease.begin] at begun
    split at begun
    · cases begun
      exact ⟨rfl, fits⟩
    · cases begun
      simp [RetainedResponseByteLease.held, RetainedResponseByteLease.Fits, idle]
  | destroyLease index =>
    cases begun
    simp [RetainedResponseByteLease.held, RetainedResponseByteLease.Fits, idle]
  | _ => simp [RetainedResponseByteLease.begin] at begun

theorem Moved.add {taken given : Nat} (step : Moved counters later taken given) (kept : Nat) :
    Moved counters later (kept + taken) (kept + given) := by
  have balance := step.balance
  exact ⟨by omega, step.limit, step.bounded⟩

theorem advanceLease_moved (bounded : counters.Bounded) (fits : lease.Fits) (covered : lease.held ≤ counters.used)
    (advanced : lease.advance counters spurious = some (changed, later)) :
    Moved counters later changed.held lease.held ∧ changed.Fits := by
  obtain ⟨kept, stage⟩ := lease
  cases stage with
  | acquiring bytes step =>
    have empty : kept = 0 := fits
    have step := @tryRetain_moved counters bytes spurious step bounded
    simp only [RetainedResponseByteLease.advance] at advanced
    split at advanced
    next result =>
      cases advanced
      simp only [result, reduceCtorEq, if_false] at step
      exact ⟨step.add kept, fits⟩
    next result =>
      cases advanced
      simp only [result, if_true] at step
      exact ⟨step.add kept, fits⟩
    next result =>
      cases advanced
      simp only [result, reduceCtorEq, if_false] at step
      exact ⟨step.add kept, trivial⟩
  | storing bytes =>
    have empty : kept = 0 := fits
    cases advanced
    refine ⟨?_, trivial⟩
    simpa [RetainedResponseByteLease.held, empty] using bounded.unmoved.add bytes
  | retaining bytes step =>
    have step := @tryRetain_moved counters bytes spurious step bounded
    simp only [RetainedResponseByteLease.advance] at advanced
    split at advanced
    next result =>
      cases advanced
      simp only [result, reduceCtorEq, if_false] at step
      exact ⟨step.add kept, trivial⟩
    next result =>
      cases advanced
      simp only [result, if_true] at step
      exact ⟨step.add kept, trivial⟩
    next result =>
      cases advanced
      simp only [result, reduceCtorEq, if_false] at step
      exact ⟨step.add kept, trivial⟩
  | adding bytes =>
    have small := bounded.small
    have within := bounded.within
    simp only [RetainedResponseByteLease.held] at covered
    cases advanced
    have exact' : add64 kept bytes = kept + bytes := add64_eq (by omega)
    refine ⟨?_, trivial⟩
    simpa [RetainedResponseByteLease.held, exact'] using bounded.unmoved.add (kept + bytes)
  | releasing bytes =>
    have empty : kept = 0 := fits
    simp only [RetainedResponseByteLease.held] at covered
    cases advanced
    exact ⟨(release_moved bounded (by omega)).add kept, trivial⟩
  | replacing bytes source =>
    have empty : kept = 0 := fits
    simp only [RetainedResponseByteLease.held] at covered
    cases advanced
    exact ⟨(release_moved bounded (by omega)).add kept, fits⟩
  | destroying bytes =>
    have empty : kept = 0 := fits
    simp only [RetainedResponseByteLease.held] at covered
    cases advanced
    exact ⟨(release_moved bounded (by omega)).add kept, fits⟩
  | idle => simp [RetainedResponseByteLease.advance] at advanced
  | taking source => simp [RetainedResponseByteLease.advance] at advanced
  | destroyed => simp [RetainedResponseByteLease.advance] at advanced

theorem advanceCall_moved (bounded : counters.Bounded) (live : context.stage = .live)
    (covered : context.held + progress.transit ≤ counters.used)
    (advanced : context.advance counters spurious progress = some (altered, later, moved)) :
    Moved counters later (altered.held + moved.transit) (context.held + progress.transit) ∧ altered.stage = .live := by
  obtain ⟨kept, stage⟩ := context
  subst live
  cases progress with
  | retaining bytes step =>
    have step := @tryRetain_moved counters bytes spurious step bounded
    simp only [RetainingContext.advance] at advanced
    split at advanced
    next result =>
      cases advanced
      simp only [result, reduceCtorEq, if_false] at step
      exact ⟨step.add kept, rfl⟩
    next result =>
      cases advanced
      simp only [result, if_true] at step
      exact ⟨step.add kept, rfl⟩
    next result =>
      cases advanced
      simp only [result, reduceCtorEq, if_false] at step
      exact ⟨step.add kept, rfl⟩
  | adding bytes =>
    have small := bounded.small
    have within := bounded.within
    simp only [RetainingContext.held, RetainingProgress.transit] at covered
    cases advanced
    have exact' : add64 kept bytes = kept + bytes := add64_eq (by omega)
    refine ⟨?_, rfl⟩
    simpa [RetainingContext.held, RetainingProgress.transit, exact'] using bounded.unmoved.add (kept + bytes)
  | loading bytes =>
    cases advanced
    exact ⟨bounded.unmoved.add kept, rfl⟩
  | releasing bytes current =>
    simp only [RetainingContext.advance] at advanced
    split at advanced
    next =>
      split at advanced
      next exchanged =>
        cases advanced
        have split : current - min current bytes + min current bytes = kept := by omega
        refine ⟨?_, rfl⟩
        simpa [RetainingContext.held, RetainingProgress.transit, split] using bounded.unmoved.add kept
      next =>
        cases advanced
        exact ⟨bounded.unmoved.add kept, rfl⟩
    next =>
      cases advanced
      exact ⟨bounded.unmoved.add kept, rfl⟩
  | subtracting released =>
    simp only [RetainingContext.held, RetainingProgress.transit] at covered
    cases advanced
    exact ⟨(release_moved bounded (by omega)).add kept, rfl⟩
  | returned => simp [RetainingContext.advance] at advanced

end Steps

namespace RetainedResponseBytes

structure Sound (limit : Nat) (state : RetainedResponseBytes) : Prop where
  bounded : state.counters.Bounded
  limit : state.counters.limit = limit
  balance : state.counters.used = total RetainedResponseByteLease.held state.leases +
    total RetainingContext.held state.contexts + total (fun call => call.progress.transit) state.calls
  fits : ∀ lease ∈ state.leases, lease.Fits
  live : ∀ call ∈ state.calls, call.progress ≠ .returned →
    ∃ context, state.contexts[call.context]? = some context ∧ context.stage = .live

variable {state next : RetainedResponseBytes} {limit index source bytes : Nat} {spurious : Bool}
  {lease changed : RetainedResponseByteLease} {context : RetainingContext} {action : RetainAction}
  {progress : RetainingProgress}

theorem idleLease_eq (idle : state.idleLease index = some lease) :
    state.leases[index]? = some lease ∧ lease.stage = .idle := by
  simpa [idleLease, Option.filter_eq_some_iff] using idle

theorem liveContext_eq (live : state.liveContext index = some context) :
    state.contexts[index]? = some context ∧ context.stage = .live := by
  simpa [liveContext, Option.filter_eq_some_iff] using live

theorem initial_sound (positive : limit ≠ 0) (small : limit < 2 ^ 64) : (initial limit).Sound limit := by
  constructor
  case bounded => exact ⟨positive, small, Nat.zero_le _⟩
  all_goals simp [initial]

theorem Sound.begin (sound : state.Sound limit) (stepped : state.begin index action = some next) : next.Sound limit := by
  obtain ⟨lease, found, stepped⟩ := Option.bind_eq_some_iff.mp stepped
  obtain ⟨changed, begun, rfl⟩ := Option.map_eq_some_iff.mp stepped
  obtain ⟨here, idle⟩ := idleLease_eq found
  obtain ⟨held, fits⟩ := begin_held (sound.fits lease (List.mem_of_getElem? here)) idle begun
  constructor
  case bounded => exact sound.bounded
  case limit => exact sound.limit
  case balance =>
    have leases := @total_set _ state.leases index _ changed RetainedResponseByteLease.held here
    have same := Nat.add_right_cancel (held ▸ leases)
    exact same ▸ sound.balance
  case fits =>
    intro other member
    rcases List.mem_or_eq_of_mem_set member with old | rfl
    · exact sound.fits other old
    · exact fits
  case live => exact sound.live

theorem Sound.createLease (sound : state.Sound limit) (stepped : state.step .createLease = some next) :
    next.Sound limit := by
  cases stepped
  constructor
  case bounded => exact sound.bounded
  case limit => exact sound.limit
  case balance => simpa [RetainedResponseByteLease.held] using sound.balance
  case fits =>
    intro lease member
    rcases List.mem_append.mp member with old | last
    · exact sound.fits lease old
    · rw [List.mem_singleton.mp last]
      trivial
  case live => exact sound.live

theorem Sound.moveLease (sound : state.Sound limit) (stepped : state.step (.moveLease source) = some next) :
    next.Sound limit := by
  obtain ⟨lease, found, rfl⟩ := Option.map_eq_some_iff.mp stepped
  obtain ⟨here, idle⟩ := idleLease_eq found
  constructor
  case bounded => exact sound.bounded
  case limit => exact sound.limit
  case balance =>
    have leases := @total_set _ state.leases source _ ⟨0, .idle⟩ RetainedResponseByteLease.held here
    have balance := sound.balance
    simp only [RetainedResponseByteLease.held, idle, Nat.add_zero] at leases
    simp only [total_append, total_cons, total_nil, RetainedResponseByteLease.held, Nat.add_zero] at balance ⊢
    omega
  case fits =>
    intro other member
    rcases List.mem_append.mp member with moved | last
    · rcases List.mem_or_eq_of_mem_set moved with old | rfl
      · exact sound.fits other old
      · trivial
    · rw [List.mem_singleton.mp last]
      trivial
  case live => exact sound.live

theorem Sound.take (sound : state.Sound limit) (here : state.leases[index]? = some lease)
    (taking : lease.stage = .taking source) {taken : RetainedResponseByteLease}
    (found : state.idleLease source = some taken) :
    ((state.putLease source ⟨0, .idle⟩).putLease index ⟨taken.bytes, .idle⟩).Sound limit := by
  obtain ⟨there, idle⟩ := idleLease_eq found
  have apart : index ≠ source := by
    rintro rfl
    rw [here] at there
    cases there
    simp [taking] at idle
  have empty : lease.bytes = 0 := by
    have fits := sound.fits lease (List.mem_of_getElem? here)
    simpa [RetainedResponseByteLease.Fits, taking] using fits
  have still : (state.leases.set source ⟨0, .idle⟩)[index]? = some lease := by
    rw [lookup_set there, if_neg apart, here]
  constructor
  case bounded => exact sound.bounded
  case limit => exact sound.limit
  case balance =>
    have first := @total_set _ state.leases source _ ⟨0, .idle⟩ RetainedResponseByteLease.held there
    have second := @total_set _ _ index _ ⟨taken.bytes, .idle⟩ RetainedResponseByteLease.held still
    have balance := sound.balance
    simp only [RetainedResponseByteLease.held, idle, taking, empty] at first second
    simp only [RetainedResponseBytes.putLease]
    omega
  case fits =>
    intro other member
    rcases List.mem_or_eq_of_mem_set member with moved | rfl
    · rcases List.mem_or_eq_of_mem_set moved with old | rfl
      · exact sound.fits other old
      · trivial
    · trivial
  case live => exact sound.live

theorem Sound.advanceLease (sound : state.Sound limit) (stepped : state.step (.advanceLease index spurious) = some next) :
    next.Sound limit := by
  obtain ⟨lease, here, stepped⟩ := Option.bind_eq_some_iff.mp stepped
  split at stepped
  next source taking =>
    obtain ⟨taken, found, rfl⟩ := Option.map_eq_some_iff.mp stepped
    exact sound.take here taking found
  next =>
    obtain ⟨⟨changed, counters⟩, advanced, rfl⟩ := Option.map_eq_some_iff.mp stepped
    have balance := sound.balance
    have covered := @le_total _ _ _ _ RetainedResponseByteLease.held here
    obtain ⟨moved, fits⟩ :=
      advanceLease_moved sound.bounded (sound.fits lease (List.mem_of_getElem? here)) (by omega) advanced
    constructor
    case bounded => exact moved.bounded
    case limit => exact moved.limit.trans sound.limit
    case balance =>
      have leases := @total_set _ state.leases index _ changed RetainedResponseByteLease.held here
      have change := moved.balance
      simp only [RetainedResponseBytes.putLease]
      omega
    case fits =>
      intro other member
      rcases List.mem_or_eq_of_mem_set member with old | rfl
      · exact sound.fits other old
      · exact fits
    case live => exact sound.live

theorem Sound.createContext (sound : state.Sound limit) (stepped : state.step .createContext = some next) :
    next.Sound limit := by
  cases stepped
  constructor
  case bounded => exact sound.bounded
  case limit => exact sound.limit
  case balance => simpa [RetainingContext.held] using sound.balance
  case fits => exact sound.fits
  case live =>
    intro call member busy
    obtain ⟨context, here, live⟩ := sound.live call member busy
    have inside : call.context < state.contexts.length := (List.getElem?_eq_some_iff.mp here).1
    exact ⟨context, by simpa [List.getElem?_append_left inside] using here, live⟩

theorem Sound.call (sound : state.Sound limit) (idle : progress.transit = 0)
    (stepped : state.call index progress = some next) : next.Sound limit := by
  obtain ⟨context, found, rfl⟩ := Option.map_eq_some_iff.mp stepped
  obtain ⟨here, live⟩ := liveContext_eq found
  constructor
  case bounded => exact sound.bounded
  case limit => exact sound.limit
  case balance => simpa [idle] using sound.balance
  case fits => exact sound.fits
  case live =>
    intro call member busy
    rcases List.mem_append.mp member with old | last
    · exact sound.live call old busy
    · rw [List.mem_singleton.mp last]
      exact ⟨context, here, live⟩

theorem Sound.advanceCall (sound : state.Sound limit) (stepped : state.step (.advanceCall index spurious) = some next) :
    next.Sound limit := by
  obtain ⟨call, here, stepped⟩ := Option.bind_eq_some_iff.mp stepped
  obtain ⟨context, there, stepped⟩ := Option.bind_eq_some_iff.mp stepped
  obtain ⟨⟨altered, counters, later⟩, advanced, rfl⟩ := Option.map_eq_some_iff.mp stepped
  have busy : call.progress ≠ .returned := by
    intro returned
    simp [returned, RetainingContext.advance] at advanced
  obtain ⟨known, same, live⟩ := sound.live call (List.mem_of_getElem? here) busy
  obtain rfl := Option.some.inj (same.symm.trans there)
  have balance := sound.balance
  have calls := @le_total _ _ _ _ (fun call : RetainingCall => call.progress.transit) here
  have contexts := @le_total _ _ _ _ RetainingContext.held there
  obtain ⟨moved, still⟩ := advanceCall_moved sound.bounded live (by omega) advanced
  constructor
  case bounded => exact moved.bounded
  case limit => exact moved.limit.trans sound.limit
  case balance =>
    have contexts := @total_set _ state.contexts call.context _ altered RetainingContext.held there
    have calls := @total_set _ state.calls index _ { call with progress := later }
      (fun call : RetainingCall => call.progress.transit) here
    have change := moved.balance
    dsimp only at calls ⊢
    omega
  case fits => exact sound.fits
  case live =>
    intro other member busy
    simp only [lookup_set there]
    by_cases mine : other.context = call.context
    · exact ⟨altered, by simp [mine], still⟩
    · rcases List.mem_or_eq_of_mem_set member with old | rfl
      · simpa [mine] using sound.live other old busy
      · simp at mine

theorem Sound.destroyContext (sound : state.Sound limit) (stepped : state.step (.destroyContext index) = some next) :
    next.Sound limit := by
  simp only [RetainedResponseBytes.step] at stepped
  split at stepped
  next unused =>
    obtain ⟨context, found, rfl⟩ := Option.map_eq_some_iff.mp stepped
    obtain ⟨here, live⟩ := liveContext_eq found
    constructor
    case bounded => exact sound.bounded
    case limit => exact sound.limit
    case balance =>
      have contexts := @total_set _ state.contexts index _ { context with stage := .destroying context.retained }
        RetainingContext.held here
      simp only [RetainingContext.held, live] at contexts
      have same := Nat.add_right_cancel contexts
      exact same ▸ sound.balance
    case fits => exact sound.fits
    case live =>
      intro call member busy
      have apart : call.context ≠ index := fun mine => busy (unused call member mine)
      simpa [lookup_set here, apart] using sound.live call member busy
  next => contradiction

theorem Sound.finishContext (sound : state.Sound limit) (stepped : state.step (.finishContext index) = some next) :
    next.Sound limit := by
  obtain ⟨context, here, stepped⟩ := Option.bind_eq_some_iff.mp stepped
  split at stepped
  next bytes destroying =>
    cases stepped
    have balance := sound.balance
    have covered := @le_total _ _ _ _ RetainingContext.held here
    simp only [RetainingContext.held, destroying] at covered
    have moved := release_moved sound.bounded (show bytes ≤ state.counters.used by omega)
    constructor
    case bounded => exact moved.bounded
    case limit => exact moved.limit.trans sound.limit
    case balance =>
      have contexts := @total_set _ state.contexts index _ { context with stage := .destroyed } RetainingContext.held here
      have change := moved.balance
      simp only [RetainingContext.held, destroying] at contexts balance ⊢
      omega
    case fits => exact sound.fits
    case live =>
      intro call member busy
      obtain ⟨known, there, live⟩ := sound.live call member busy
      have apart : call.context ≠ index := by
        rintro rfl
        obtain rfl := Option.some.inj (there.symm.trans here)
        simp [live] at destroying
      exact ⟨known, by simpa [lookup_set here, apart] using there, live⟩
  next => contradiction

theorem Sound.step (sound : state.Sound limit) (stepped : state.step action = some next) : next.Sound limit := by
  cases action with
  | createLease => exact sound.createLease stepped
  | moveLease source => exact sound.moveLease stepped
  | acquire lease bytes => exact sound.begin stepped
  | retain lease bytes => exact sound.begin stepped
  | reset lease => exact sound.begin stepped
  | assign lease source => exact sound.begin stepped
  | destroyLease lease => exact sound.begin stepped
  | advanceLease lease spurious => exact sound.advanceLease stepped
  | createContext => exact sound.createContext stepped
  | retainResponseBytes context bytes =>
    apply sound.call _ stepped
    split <;> rfl
  | releaseResponseBytes context bytes => exact sound.call rfl stepped
  | advanceCall call spurious => exact sound.advanceCall stepped
  | destroyContext context => exact sound.destroyContext stepped
  | finishContext context => exact sound.finishContext stepped

theorem run_sound {actions : List RetainAction} (positive : limit ≠ 0) (small : limit < 2 ^ 64)
    (ran : runSteps RetainedResponseBytes.step (initial limit) actions = some state) : state.Sound limit :=
  runSteps_keeps Sound.step (initial_sound positive small) ran

structure Quiet (state : RetainedResponseBytes) : Prop where
  leases : ∀ lease ∈ state.leases, lease.stage = .idle ∨ lease.stage = .destroyed
  contexts : ∀ context ∈ state.contexts, context.stage = .live ∨ context.stage = .destroyed
  calls : ∀ call ∈ state.calls, call.progress = .returned

inductive Due (state : RetainedResponseBytes) : Nat → Prop where
  | reset {lease : RetainedResponseByteLease} {bytes : Nat} (member : lease ∈ state.leases)
      (stage : lease.stage = .releasing bytes) : Due state bytes
  | replace {lease : RetainedResponseByteLease} {bytes source : Nat} (member : lease ∈ state.leases)
      (stage : lease.stage = .replacing bytes source) : Due state bytes
  | destroy {lease : RetainedResponseByteLease} {bytes : Nat} (member : lease ∈ state.leases)
      (stage : lease.stage = .destroying bytes) : Due state bytes
  | finish {context : RetainingContext} {bytes : Nat} (member : context ∈ state.contexts)
      (stage : context.stage = .destroying bytes) : Due state bytes
  | release {call : RetainingCall} {bytes : Nat} (member : call ∈ state.calls)
      (progress : call.progress = .subtracting bytes) : Due state bytes

def liveBytes (context : RetainingContext) : Nat := if context.stage = .live then context.retained else 0

structure ExactlyRetained (limit : Nat) (state : RetainedResponseBytes) : Prop where
  balance : state.counters.used = total RetainedResponseByteLease.held state.leases +
    total RetainingContext.held state.contexts + total (fun call => call.progress.transit) state.calls
  quiet : state.Quiet → state.counters.used =
    total (fun lease => lease.bytes) state.leases + total liveBytes state.contexts
  within : state.counters.used ≤ limit
  covered : ∀ bytes, state.Due bytes → bytes ≤ state.counters.used
  empty : (∀ lease ∈ state.leases, lease.stage = .destroyed) → (∀ context ∈ state.contexts, context.stage = .destroyed) →
    state.counters.used = 0

theorem Sound.quiet (sound : state.Sound limit) (quiet : state.Quiet) :
    state.counters.used = total (fun lease => lease.bytes) state.leases + total liveBytes state.contexts := by
  have leases : total RetainedResponseByteLease.held state.leases = total (fun lease => lease.bytes) state.leases := by
    apply total_congr
    intro lease member
    rcases quiet.leases lease member with idle | destroyed
    · simp [RetainedResponseByteLease.held, idle]
    · simp [RetainedResponseByteLease.held, destroyed]
  have contexts : total RetainingContext.held state.contexts = total liveBytes state.contexts := by
    apply total_congr
    intro context member
    rcases quiet.contexts context member with live | destroyed
    · simp [RetainingContext.held, liveBytes, live]
    · simp [RetainingContext.held, liveBytes, destroyed]
  have calls : total (fun call => call.progress.transit) state.calls = 0 := by
    apply total_eq_zero_iff.mpr
    intro call member
    simp [quiet.calls call member, RetainingProgress.transit]
  have balance := sound.balance
  omega

theorem Sound.covered (sound : state.Sound limit) (due : state.Due bytes) : bytes ≤ state.counters.used := by
  have balance := sound.balance
  have lease_le {lease : RetainedResponseByteLease} (member : lease ∈ state.leases) :
      lease.held ≤ total RetainedResponseByteLease.held state.leases := by
    obtain ⟨index, here⟩ := List.mem_iff_getElem?.mp member
    exact le_total here
  cases due with
  | reset member stage =>
    have covered := lease_le member
    simp only [RetainedResponseByteLease.held, stage] at covered balance
    omega
  | replace member stage =>
    have covered := lease_le member
    simp only [RetainedResponseByteLease.held, stage] at covered balance
    omega
  | destroy member stage =>
    have covered := lease_le member
    simp only [RetainedResponseByteLease.held, stage] at covered balance
    omega
  | finish member stage =>
    obtain ⟨index, here⟩ := List.mem_iff_getElem?.mp member
    have covered := @le_total _ _ _ _ RetainingContext.held here
    simp only [RetainingContext.held, stage] at covered balance
    omega
  | release member progress =>
    obtain ⟨index, here⟩ := List.mem_iff_getElem?.mp member
    have covered := @le_total _ _ _ _ (fun call : RetainingCall => call.progress.transit) here
    simp only [RetainingProgress.transit, progress] at covered balance
    omega

theorem Sound.empty (sound : state.Sound limit) (leases : ∀ lease ∈ state.leases, lease.stage = .destroyed)
    (contexts : ∀ context ∈ state.contexts, context.stage = .destroyed) : state.counters.used = 0 := by
  have calls : ∀ call ∈ state.calls, call.progress = .returned := by
    intro call member
    by_contra busy
    obtain ⟨context, here, live⟩ := sound.live call member busy
    simp [contexts context (List.mem_of_getElem? here)] at live
  have quiet : state.Quiet :=
    ⟨fun lease member => .inr (leases lease member), fun context member => .inr (contexts context member), calls⟩
  have held : total (fun lease => lease.bytes) state.leases = 0 := by
    apply total_eq_zero_iff.mpr
    intro lease member
    have fits := sound.fits lease member
    simpa [RetainedResponseByteLease.Fits, leases lease member] using fits
  have retained : total liveBytes state.contexts = 0 := by
    apply total_eq_zero_iff.mpr
    intro context member
    simp [liveBytes, contexts context member]
  rw [sound.quiet quiet, held, retained]

theorem retained_bytes_exact {actions : List RetainAction} (positive : limit ≠ 0) (small : limit < 2 ^ 64)
    (ran : runSteps RetainedResponseBytes.step (initial limit) actions = some state) : state.ExactlyRetained limit := by
  have sound := run_sound positive small ran
  constructor
  case balance => exact sound.balance
  case quiet => exact sound.quiet
  case within => exact sound.limit ▸ sound.bounded.within
  case covered => exact fun bytes due => sound.covered due
  case empty => exact sound.empty

def leaseAndContext : List RetainAction :=
  [.createLease, .acquire 0 6, .advanceLease 0 false, .createContext, .retainResponseBytes 0 4, .advanceCall 0 false,
    .advanceLease 0 false, .advanceLease 0 false, .advanceCall 0 false, .advanceCall 0 false, .advanceCall 0 false,
    .moveLease 0, .retainResponseBytes 0 1, .advanceCall 1 false, .advanceCall 1 false, .destroyLease 1,
    .advanceLease 1 false, .destroyLease 0, .advanceLease 0 false, .destroyContext 0, .finishContext 0]

theorem retained_bytes_exact_lease_and_context : 10 ≠ 0 ∧ 10 < 2 ^ 64 ∧
    ∃ state, runSteps RetainedResponseBytes.step (initial 10) leaseAndContext = some state ∧ state.ExactlyRetained 10 :=
  ⟨by decide, by decide, _, rfl, @retained_bytes_exact _ 10 leaseAndContext (by decide) (by decide) rfl⟩

end RetainedResponseBytes

end SubConverter.Server
