import SubConverter.Lib.Interleaving

set_option autoImplicit false

namespace SubConverter.Handler

inductive PoolCaller where
  | outside
  | acquiring
  | waiting
  | initialising
  | refused
  | notifying
  | leased (handle : Nat)
  | releasing (handle : Nat)
  | announcing (handles : List Nat)
  | cleaning (handles : List Nat)
deriving DecidableEq, Repr

inductive PoolEvent where
  | acquire
  | lock
  | wake
  -- The answer of `curl_easy_init`.
  | initialised (handle : Option Nat)
  | uncount
  -- One of the waiting threads, if there is any.
  | notifyOne (woken : Option Nat)
  | use
  | reset
  | putBack
  | shutdown
  | notifyAll
  | cleanup
deriving DecidableEq, Repr

structure CurlHandlePool where
  capacity : Nat
  -- The back of the vector is the head.
  idle : List Nat
  created : Nat
  stopping : Bool
  callers : List PoolCaller
  -- Outside of the pool: the handles that are not as new ones, and what libcurl has opened and cleaned up.
  soiled : List Nat
  opened : List Nat
  closed : List Nat
deriving DecidableEq, Repr

namespace PoolCaller

@[grind =] def held : PoolCaller → List Nat
  | .leased handle | .releasing handle => [handle]
  | .announcing handles | .cleaning handles => handles
  | _ => []

def woken : PoolCaller → PoolCaller
  | .waiting => .acquiring
  | caller => caller

end PoolCaller

namespace CurlHandlePool

def create (capacity threads : Nat) : CurlHandlePool :=
  { capacity := max 1 capacity, idle := [], created := 0, stopping := false, callers := List.replicate threads .outside
    soiled := [], opened := [], closed := [] }

variable (pool : CurlHandlePool)

@[grind =] def goes (caller : Nat) (next : PoolCaller) : CurlHandlePool := { pool with callers := pool.callers.set caller next }

/-- `acquire` under the lock: the condition of the wait, and what follows it. -/
def lock (caller : Nat) : CurlHandlePool :=
  if pool.stopping then pool.goes caller .outside
  else match pool.idle with
    | handle :: rest => { pool.goes caller (.leased handle) with idle := rest }
    | [] =>
      if pool.created < pool.capacity then { pool.goes caller .initialising with created := pool.created + 1 }
      else pool.goes caller .waiting

def live (handle : Nat) : Bool := handle ∈ pool.idle || pool.callers.any fun caller => handle ∈ caller.held

def notifyOne (caller : Nat) : Option Nat → Option CurlHandlePool
  | none => if .waiting ∈ pool.callers then none else some (pool.goes caller .outside)
  | some other =>
    if pool.callers[other]? = some .waiting then some ((pool.goes caller .outside).goes other .acquiring) else none

def advance (caller : Nat) : PoolCaller → PoolEvent → Option CurlHandlePool
  | .outside, .acquire => some (pool.goes caller .acquiring)
  | .acquiring, .lock => some (pool.lock caller)
  | .waiting, .wake => some (pool.goes caller .acquiring)
  | .initialising, .initialised none => some (pool.goes caller .refused)
  | .initialising, .initialised (some handle) =>
    if pool.live handle then none
    else some { pool.goes caller (.leased handle) with opened := handle :: pool.opened }
  | .refused, .uncount => some { pool.goes caller .notifying with created := pool.created - 1 }
  | .notifying, .notifyOne woken => pool.notifyOne caller woken
  | .leased handle, .use => some { pool with soiled := handle :: pool.soiled }
  | .leased handle, .reset => some { pool.goes caller (.releasing handle) with soiled := pool.soiled.filter (· ≠ handle) }
  | .releasing handle, .putBack =>
    if pool.stopping then some { pool.goes caller (.cleaning [handle]) with created := pool.created - 1 }
    else some { pool.goes caller .notifying with idle := handle :: pool.idle }
  | .outside, .shutdown =>
    if pool.stopping then some pool
    else some { pool.goes caller (.announcing pool.idle.reverse) with stopping := true, idle := [] }
  | .announcing handles, .notifyAll =>
    some { pool with callers := (pool.callers.map PoolCaller.woken).set caller (.cleaning handles) }
  | .cleaning (handle :: rest), .cleanup => some { pool.goes caller (.cleaning rest) with closed := handle :: pool.closed }
  | .cleaning [], .cleanup => some (pool.goes caller .outside)
  | _, _ => none

def step (event : Nat × PoolEvent) : Option CurlHandlePool :=
  pool.callers[event.1]?.bind fun caller => pool.advance event.1 caller event.2

end CurlHandlePool

namespace PoolCaller

@[grind =] def counted : PoolCaller → Nat
  | .initialising | .refused | .leased _ | .releasing _ => 1
  | _ => 0

@[grind =] def doomed : PoolCaller → Nat
  | .announcing handles | .cleaning handles => handles.length
  | _ => 0

@[grind =] def waits : PoolCaller → Nat
  | .waiting => 1
  | _ => 0

@[grind =] def announces : PoolCaller → Nat
  | .announcing _ => 1
  | _ => 0

@[grind =] def awake : PoolCaller → Nat
  | .acquiring | .notifying => 1
  | _ => 0

@[grind =] def leases (handle : Nat) : PoolCaller → Nat
  | .leased other => if other = handle then 1 else 0
  | _ => 0

@[grind =] def holds (handle : Nat) (caller : PoolCaller) : Nat := caller.held.count handle

end PoolCaller

namespace CurlHandlePool

open PoolCaller

structure Sound (bound : Nat) (pool : CurlHandlePool) : Prop where
  fixed : pool.capacity = bound
  room : pool.created ≤ bound
  covers : pool.idle.length + total counted pool.callers ≤ pool.created
  exact : pool.stopping = false →
    pool.created = pool.idle.length + total counted pool.callers ∧ total doomed pool.callers = 0
  bounded : pool.idle.length + total counted pool.callers + total doomed pool.callers ≤ bound
  history : ∀ handle, pool.opened.count handle =
    pool.closed.count handle + (pool.idle.count handle + total (holds handle) pool.callers)
  single : ∀ handle, pool.idle.count handle + total (holds handle) pool.callers ≤ 1
  clean : ∀ handle ∈ pool.soiled, 0 < total (leases handle) pool.callers
  emptied : pool.stopping = true → pool.idle = []
  -- Somebody is on the way to whatever is to be had.
  noticed : 0 < total waits pool.callers →
    if pool.stopping then 0 < total announces pool.callers
    else pool.idle.length + (bound - pool.created) ≤ total awake pool.callers

@[grind] def Tallied (callers after : List PoolCaller) (before next : PoolCaller) : Prop :=
  total counted after + before.counted = total counted callers + next.counted ∧
    total doomed after + before.doomed = total doomed callers + next.doomed ∧
    total waits after + before.waits = total waits callers + next.waits ∧
    total announces after + before.announces = total announces callers + next.announces ∧
    total awake after + before.awake = total awake callers + next.awake ∧
    ∀ handle, total (leases handle) after + before.leases handle = total (leases handle) callers + next.leases handle ∧
      total (holds handle) after + before.holds handle = total (holds handle) callers + next.holds handle

variable {pool after : CurlHandlePool} {bound caller : Nat} {before : PoolCaller}

theorem tallied {callers : List PoolCaller} (here : callers[caller]? = some before) (next : PoolCaller) :
    Tallied callers (callers.set caller next) before next :=
  ⟨total_set here, total_set here, total_set here, total_set here, total_set here, fun _ => ⟨total_set here, total_set here⟩⟩

theorem lock_sound (sound : pool.Sound bound) (here : pool.callers[caller]? = some .acquiring) : (pool.lock caller).Sound bound := by
  obtain ⟨fixed, room, covers, exact, bounded, history, single, clean, emptied, noticed⟩ := sound
  have moved := tallied here
  unfold lock
  split
  next stopping =>
    have sums := moved .outside
    constructor <;> grind -linarith
  next running =>
    split
    next handle rest idle =>
      have sums := moved (.leased handle)
      constructor <;> grind -linarith
    next idle =>
      split
      next small =>
        have sums := moved .initialising
        constructor <;> grind -linarith
      next full =>
        have sums := moved .waiting
        constructor <;> grind -linarith

theorem goes_sound (sound : pool.Sound bound) (here : pool.callers[caller]? = some before) {next : PoolCaller}
    (counts : next.counted = before.counted) (dooms : next.doomed = before.doomed)
    (leased : ∀ handle, next.leases handle = before.leases handle) (holding : ∀ handle, next.holds handle = before.holds handle)
    (waiting : next.waits ≤ before.waits) (announcing : before.announces ≤ next.announces) (waking : before.awake ≤ next.awake) :
    (pool.goes caller next).Sound bound := by
  obtain ⟨fixed, room, covers, exact, bounded, history, single, clean, emptied, noticed⟩ := sound
  have sums := tallied here next
  constructor <;> grind -linarith

theorem notifyOne_sound (sound : pool.Sound bound) (here : pool.callers[caller]? = some .notifying) {woken : Option Nat}
    (notified : pool.notifyOne caller woken = some after) : after.Sound bound := by
  obtain ⟨fixed, room, covers, exact, bounded, history, single, clean, emptied, noticed⟩ := sound
  have sums := tallied here .outside
  cases woken with
  | none =>
    simp only [notifyOne] at notified
    split at notified
    · contradiction
    next nobody =>
      cases notified
      have none : total waits pool.callers = 0 := by
        refine total_eq_zero_iff.mpr fun other member => ?_
        cases other with
        | waiting => exact absurd member nobody
        | _ => rfl
      constructor <;> grind -linarith
  | some other =>
    simp only [notifyOne] at notified
    split at notified
    next asleep =>
      cases notified
      have apart : other ≠ caller := by
        rintro rfl
        rw [here] at asleep
        contradiction
      have there : (pool.callers.set caller .outside)[other]? = some .waiting := by
        rw [lookup_set here, if_neg apart]
        exact asleep
      have more := tallied there .acquiring
      constructor <;> grind -linarith
    · contradiction

theorem notifyAll_sound (sound : pool.Sound bound) {handles : List Nat} (here : pool.callers[caller]? = some (.announcing handles)) :
    Sound bound { pool with callers := (pool.callers.map PoolCaller.woken).set caller (.cleaning handles) } := by
  obtain ⟨fixed, room, covers, exact, bounded, history, single, clean, emptied, noticed⟩ := sound
  have there : (pool.callers.map PoolCaller.woken)[caller]? = some (.announcing handles) := by
    rw [List.getElem?_map, here]
    rfl
  have sums := tallied there (.cleaning handles)
  have kept {amount : PoolCaller → Nat} (same : amount .acquiring = amount .waiting) :
      total amount (pool.callers.map PoolCaller.woken) = total amount pool.callers := by
    rw [total, List.map_map]
    refine congrArg List.sum (List.map_congr_left fun other _ => ?_)
    cases other with
    | waiting => exact same
    | _ => rfl
  have nobody : total waits (pool.callers.map PoolCaller.woken) = 0 := by
    refine total_eq_zero_iff.mpr fun other member => ?_
    obtain ⟨old, _, rfl⟩ := List.mem_map.mp member
    cases old <;> rfl
  have first := @kept counted rfl
  have second := @kept doomed rfl
  have third (handle : Nat) := @kept (leases handle) rfl
  have fourth (handle : Nat) := @kept (holds handle) rfl
  constructor <;> grind -linarith

theorem advance_sound (sound : pool.Sound bound) (here : pool.callers[caller]? = some before) {event : PoolEvent}
    (advanced : pool.advance caller before event = some after) : after.Sound bound := by
  have whole := sound
  obtain ⟨fixed, room, covers, exact, bounded, history, single, clean, emptied, noticed⟩ := sound
  have moved := tallied here
  unfold advance at advanced
  split at advanced
  case h_2 =>
    cases advanced
    exact lock_sound whole here
  case h_5 handle =>
    split at advanced
    · contradiction
    next new =>
      cases advanced
      have sums := moved (.leased handle)
      have unknown : pool.idle.count handle = 0 ∧ total (holds handle) pool.callers = 0 := by
        simp only [live, Bool.or_eq_true, decide_eq_true_eq, List.any_eq_true, not_or, not_exists, not_and] at new
        exact ⟨List.count_eq_zero.mpr new.1, total_eq_zero_iff.mpr fun other member => List.count_eq_zero.mpr (new.2 other member)⟩
      constructor <;> grind -linarith
  case h_7 woken => exact notifyOne_sound whole here advanced
  case h_8 handle =>
    cases advanced
    have leased : 1 ≤ total (leases handle) pool.callers := by
      have one := @le_total _ _ _ _ (leases handle) here
      simpa [leases] using one
    exact ⟨fixed, room, covers, exact, bounded, history, single, List.forall_mem_cons.mpr ⟨leased, clean⟩, emptied, noticed⟩
  case h_10 handle =>
    split at advanced
    next stopping =>
      cases advanced
      have sums := moved (.cleaning [handle])
      constructor <;> grind -linarith
    next running =>
      cases advanced
      have sums := moved .notifying
      constructor <;> grind -linarith
  case h_11 =>
    split at advanced
    · cases advanced
      exact whole
    next running =>
      cases advanced
      have sums := moved (.announcing pool.idle.reverse)
      constructor <;> grind -linarith
  case h_12 handles =>
    cases advanced
    exact notifyAll_sound whole here
  case h_15 => contradiction
  all_goals cases advanced
  case h_9 handle =>
    have sums := moved (.releasing handle)
    constructor <;> grind -linarith
  case h_13 handle rest =>
    have sums := moved (.cleaning rest)
    constructor <;> grind -linarith
  case h_6 =>
    have sums := moved .notifying
    constructor <;> grind -linarith
  case h_1 | h_3 | h_4 | h_14 => exact goes_sound whole here rfl rfl (fun _ => rfl) (fun _ => rfl) (by decide) (by decide) (by decide)

theorem create_sound (capacity threads : Nat) : (create capacity threads).Sound (max 1 capacity) := by
  have zero (amount : PoolCaller → Nat) (none : amount .outside = 0) : total amount (create capacity threads).callers = 0 :=
    total_eq_zero_iff.mpr fun caller member => List.eq_of_mem_replicate member ▸ none
  have first := zero counted rfl
  have second := zero doomed rfl
  have third := zero waits rfl
  have fourth (handle : Nat) := zero (holds handle) rfl
  constructor
  all_goals grind [create]

variable {capacity threads : Nat} {events : List (Nat × PoolEvent)}

theorem run_sound (ran : runSteps step (create capacity threads) events = some pool) : pool.Sound (max 1 capacity) := by
  refine runSteps_keeps (fun sound stepped => ?_) (create_sound capacity threads) ran
  obtain ⟨before, here, advanced⟩ := Option.bind_eq_some_iff.mp stepped
  exact advance_sound sound here advanced

structure Accounted (capacity : Nat) (pool : CurlHandlePool) : Prop where
  room : pool.created ≤ max 1 capacity
  handles : pool.idle.length + total counted pool.callers + total doomed pool.callers ≤ max 1 capacity
  -- The decrements do not go below zero.
  covers : ∀ caller ∈ pool.callers, caller.counted ≤ pool.created
  -- The assertion of `shutdown` tells that no handle is out.
  asserted : pool.stopping = false → (pool.created = pool.idle.length ↔ ∀ caller ∈ pool.callers, caller.counted = 0)

theorem handles_accounted (ran : runSteps step (create capacity threads) events = some pool) : pool.Accounted capacity := by
  have sound := run_sound ran
  have covers := sound.covers
  constructor
  case room => exact sound.room
  case handles => exact sound.bounded
  case covers =>
    intro caller member
    obtain ⟨index, here⟩ := List.getElem?_of_mem member
    have part := @le_total _ _ _ _ counted here
    omega
  case asserted =>
    intro running
    have exact := (sound.exact running).1
    rw [← total_eq_zero_iff]
    omega

def reachedBy (events : List (Nat × PoolEvent)) : CurlHandlePool := (runSteps step (create 0 3) events).getD (create 0 3)

def handedOver : List (Nat × PoolEvent) :=
  [(0, .acquire), (0, .lock), (1, .acquire), (1, .lock), (0, .initialised (some 7)), (0, .use), (0, .reset), (0, .putBack),
    (0, .notifyOne (some 1)), (1, .lock), (2, .shutdown), (2, .notifyAll), (2, .cleanup)]

theorem ran_handedOver : runSteps step (create 0 3) handedOver = some (reachedBy handedOver) := by decide +kernel

theorem handles_accounted_handed_over : (reachedBy handedOver).Accounted 0 := handles_accounted ran_handedOver

structure Exclusive (pool : CurlHandlePool) : Prop where
  single : ∀ handle, pool.idle.count handle + total (holds handle) pool.callers ≤ 1
  -- Neither cleaned up twice, nor lost, nor cleaned up while somebody holds it.
  history : ∀ handle, pool.opened.count handle =
    pool.closed.count handle + (pool.idle.count handle + total (holds handle) pool.callers)
  clean : ∀ handle ∈ pool.idle, handle ∉ pool.soiled
  released : pool.stopping = true → (∀ caller ∈ pool.callers, caller.held = []) → pool.closed.Perm pool.opened

theorem handles_exclusive (ran : runSteps step (create capacity threads) events = some pool) : pool.Exclusive := by
  have sound := run_sound ran
  constructor
  case single => exact sound.single
  case history => exact sound.history
  case clean =>
    intro handle idle soiled
    have leased := sound.clean handle soiled
    have smaller : total (leases handle) pool.callers ≤ total (holds handle) pool.callers := by
      refine total_mono fun caller _ => ?_
      cases caller <;> simp [leases, holds, held, List.count_singleton]
    have present := List.count_pos_iff.mpr idle
    have single := sound.single handle
    omega
  case released =>
    intro stopping nobody
    refine List.perm_iff_count.mpr fun handle => ?_
    have none : total (holds handle) pool.callers = 0 :=
      total_eq_zero_iff.mpr fun caller member => by rw [holds, nobody caller member, List.count_nil]
    have history := sound.history handle
    rw [none, sound.emptied stopping] at history
    simpa using history.symm

theorem handles_exclusive_handed_over : (reachedBy handedOver).Exclusive := handles_exclusive ran_handedOver

structure Awaited (capacity : Nat) (pool : CurlHandlePool) : Prop where
  stopping : pool.stopping = true → ∃ handles, .announcing handles ∈ pool.callers
  -- For every handle that is to be had somebody is about to take it, or to wake another thread.
  running : pool.stopping = false → pool.idle.length + (max 1 capacity - pool.created) ≤ total awake pool.callers
  progress : pool.stopping = false → ∃ caller ∈ pool.callers, 0 < caller.awake + caller.counted

theorem waiting_awaited (ran : runSteps step (create capacity threads) events = some pool) (asleep : .waiting ∈ pool.callers) :
    pool.Awaited capacity := by
  have sound := run_sound ran
  obtain ⟨index, here⟩ := List.getElem?_of_mem asleep
  have waiting := @le_total _ _ _ _ waits here
  have noticed := sound.noticed waiting
  have positive {amount : PoolCaller → Nat} (some : 0 < total amount pool.callers) : ∃ caller ∈ pool.callers, 0 < amount caller := by
    by_contra none
    have zero := total_eq_zero_iff.mpr fun caller member => by_contra fun more => none ⟨caller, member, Nat.pos_of_ne_zero more⟩
    omega
  constructor
  case stopping =>
    intro stopping
    rw [if_pos stopping] at noticed
    obtain ⟨caller, member, announcing⟩ := positive noticed
    cases caller with
    | announcing handles => exact ⟨handles, member⟩
    | _ => contradiction
  case running =>
    intro running
    rwa [if_neg (by simp [running])] at noticed
  case progress =>
    intro running
    rw [if_neg (by simp [running])] at noticed
    have exact := (sound.exact running).1
    rcases Nat.eq_zero_or_pos (total awake pool.callers) with none | some
    · have out : 0 < total counted pool.callers := by omega
      obtain ⟨caller, member, counted⟩ := positive out
      exact ⟨caller, member, Nat.lt_add_left _ counted⟩
    · obtain ⟨caller, member, awake⟩ := positive some
      exact ⟨caller, member, Nat.lt_add_right _ awake⟩

theorem waiting_awaited_second : (reachedBy (handedOver.take 8)).Awaited 0 := by
  have ran : runSteps step (create 0 3) (handedOver.take 8) = some (reachedBy (handedOver.take 8)) := by decide +kernel
  have asleep : .waiting ∈ (reachedBy (handedOver.take 8)).callers := by decide +kernel
  exact waiting_awaited ran asleep

end CurlHandlePool

end SubConverter.Handler
