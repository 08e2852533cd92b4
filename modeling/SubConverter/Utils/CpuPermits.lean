import SubConverter.Lib.Interleaving

set_option autoImplicit false

namespace SubConverter.Utils

inductive SchedulerSubmitStatus where
  | accepted
  | entryLimit
  | byteLimit
  | deadline
  | cancelled
  | stopping
deriving DecidableEq, Repr

structure CpuPermitGate where
  limit : Nat
  active : Nat
  waiting : Nat
  stopping : Bool
deriving DecidableEq, Repr

namespace CpuPermitGate

def create (limit : Nat) : CpuPermitGate := { limit := max 1 limit, active := 0, waiting := 0, stopping := false }

/-- One pass of the loop in `acquire`, under the lock; nothing when the caller has to wait on. -/
def pass (gate : CpuPermitGate) (cancelled expired : Bool) : CpuPermitGate × Option SchedulerSubmitStatus :=
  let finished := { gate with waiting := gate.waiting - 1 }
  if gate.stopping then (finished, some .stopping)
  else if cancelled then (finished, some .cancelled)
  else if expired then (finished, some .deadline)
  else if gate.active < gate.limit then ({ finished with active := gate.active + 1 }, some .accepted)
  else (gate, none)

def release (gate : CpuPermitGate) : CpuPermitGate :=
  if gate.active ≠ 0 then { gate with active := gate.active - 1 } else gate

def setLimit (gate : CpuPermitGate) (limit : Nat) : CpuPermitGate := { gate with limit := max 1 limit }

end CpuPermitGate

/-- What follows `CpuPermitLease::acquire`: its caller, `resumeOrThrow`, or the end of `waitWithoutCpuPermit`. -/
inductive AfterAcquire where
  | caller
  | resume
  | leave (thrown : Bool)
deriving DecidableEq, Repr

/-- What follows `CpuPermitLease::release`: its caller, the constructor of a `ScopedCpuWait`, or the destructor. -/
inductive AfterRelease where
  | caller
  | wait
  | destroy
deriving DecidableEq, Repr

inductive PermitStage where
  | idle
  | acquiring (entered : Bool) (next : AfterAcquire)
  | answered (status : SchedulerSubmitStatus) (next : AfterAcquire)
  | releasing (next : AfterRelease)
  | destroyed
deriving DecidableEq, Repr

/-- `permit` tells whether the wait took the permit away, so that resuming has to get it back. -/
structure ScopedCpuWait where
  permit : Bool
  resumed : Bool
deriving DecidableEq, Repr

/-- How a call of `waitWithoutCpuPermit` or `resumeOrThrow` ended. -/
inductive WaitEnd where
  | returned
  | rethrown
  | refused (status : SchedulerSubmitStatus)
deriving DecidableEq, Repr

structure CpuPermitLease where
  held : Bool
  stage : PermitStage
  waits : List ScopedCpuWait
  ended : Option WaitEnd
deriving DecidableEq, Repr

inductive LeaseAction where
  | acquire
  | release
  | openWait
  | resume
  | closeWait
  | leaveWait (thrown : Bool)
  | destroy
deriving DecidableEq, Repr

namespace CpuPermitLease

def create : CpuPermitLease := { held := false, stage := .idle, waits := [], ended := none }

/-- The end of the wait that `next` belongs to, once `acquire` has answered. -/
def settle (lease : CpuPermitLease) (status : SchedulerSubmitStatus) : AfterAcquire → CpuPermitLease
  | .caller => lease
  | .resume => { lease with ended := some (if status = .accepted then .returned else .refused status) }
  | .leave thrown => { lease with
      waits := lease.waits.tail
      ended := some (if status ≠ .accepted then .refused status else if thrown then .rethrown else .returned) }

/-- `acquire` on behalf of `next`: a lease that is held answers at once. -/
def acquireFor (lease : CpuPermitLease) (next : AfterAcquire) : CpuPermitLease :=
  if lease.held then lease.settle .accepted next else { lease with stage := .acquiring false next }

def releaseFor (lease : CpuPermitLease) (next : AfterRelease) : CpuPermitLease :=
  { lease with held := false, stage := .releasing next }

def resumeFor (lease : CpuPermitLease) (next : AfterAcquire) : Option CpuPermitLease :=
  match lease.waits with
  | [] => none
  | wait :: outer =>
    if !wait.permit || wait.resumed then some (lease.settle .accepted next)
    else some ({ lease with waits := { wait with resumed := true } :: outer }.acquireFor next)

def begin (lease : CpuPermitLease) : LeaseAction → Option CpuPermitLease
  | .acquire => some (lease.acquireFor .caller)
  | .release => some (if lease.held then lease.releaseFor .caller else lease)
  | .openWait =>
    some (if lease.held then lease.releaseFor .wait else { lease with waits := ⟨false, false⟩ :: lease.waits })
  | .resume => lease.resumeFor .resume
  | .closeWait => if lease.waits = [] then none else some { lease with waits := lease.waits.tail }
  | .leaveWait thrown => lease.resumeFor (.leave thrown)
  | .destroy =>
    if lease.waits ≠ [] then none
    else some (if lease.held then lease.releaseFor .destroy else { lease with stage := .destroyed })

def released (lease : CpuPermitLease) : AfterRelease → CpuPermitLease
  | .caller => { lease with stage := .idle }
  | .wait => { lease with stage := .idle, waits := ⟨true, false⟩ :: lease.waits }
  | .destroy => { lease with stage := .destroyed }

/-- The next step of the call in progress, with what the clock and the cancellation token say. -/
def advance (lease : CpuPermitLease) (gate : CpuPermitGate) (cancelled expired : Bool) :
    Option (CpuPermitLease × CpuPermitGate) :=
  match lease.stage with
  | .acquiring entered next =>
    let arrived := if entered then gate else { gate with waiting := gate.waiting + 1 }
    match arrived.pass cancelled expired with
    | (gate, some status) => some ({ lease with stage := .answered status next }, gate)
    | (gate, none) => some ({ lease with stage := .acquiring true next }, gate)
  | .answered status next =>
    some ({ lease with held := status = SchedulerSubmitStatus.accepted, stage := .idle }.settle status next, gate)
  | .releasing next => some (lease.released next, gate.release)
  | .idle | .destroyed => none

end CpuPermitLease

structure CpuPermits where
  gate : CpuPermitGate
  leases : List CpuPermitLease
deriving DecidableEq, Repr

inductive PermitAction where
  | create
  | lease (index : Nat) (action : LeaseAction)
  | advance (index : Nat) (cancelled expired : Bool)
  | setLimit (limit : Nat)
  | requestShutdown
deriving DecidableEq, Repr

namespace CpuPermits

def initial (limit : Nat) : CpuPermits := { gate := .create limit, leases := [] }

def step (state : CpuPermits) : PermitAction → Option CpuPermits
  | .create => some { state with leases := state.leases ++ [.create] }
  | .lease index action =>
    state.leases[index]?.bind fun lease =>
      if lease.stage = .idle then
        (lease.begin action).map fun changed => { state with leases := state.leases.set index changed }
      else none
  | .advance index cancelled expired =>
    state.leases[index]?.bind fun lease =>
      (lease.advance state.gate cancelled expired).map fun (changed, gate) =>
        { gate := gate, leases := state.leases.set index changed }
  | .setLimit limit => some { state with gate := state.gate.setLimit limit }
  | .requestShutdown => some { state with gate := { state.gate with stopping := true } }

end CpuPermits

namespace CpuPermitLease

def holding (lease : CpuPermitLease) : Bool :=
  lease.held || match lease.stage with
    | .answered status _ => status = .accepted
    | .releasing _ => true
    | _ => false

def isWaiting (lease : CpuPermitLease) : Bool :=
  match lease.stage with
  | .acquiring entered _ => entered
  | _ => false

def Fits (lease : CpuPermitLease) : Prop := lease.stage = .idle ∨ lease.held = false

variable {lease changed : CpuPermitLease} {gate later : CpuPermitGate} {status : SchedulerSubmitStatus}
  {next : AfterAcquire} {action : LeaseAction} {cancelled expired : Bool}

@[simp] theorem settle_held : (lease.settle status next).held = lease.held := by
  cases next <;> rfl

@[simp] theorem settle_stage : (lease.settle status next).stage = lease.stage := by
  cases next <;> rfl

structure Begun (lease changed : CpuPermitLease) : Prop where
  fits : changed.Fits
  holding : changed.holding = lease.holding
  waiting : changed.isWaiting = false

theorem acquireFor_begun (idle : lease.stage = .idle) : lease.Begun (lease.acquireFor next) := by
  unfold acquireFor
  split
  next held => constructor <;> simp [Fits, CpuPermitLease.holding, isWaiting, idle]
  next unheld => constructor <;> simp [Fits, CpuPermitLease.holding, isWaiting, idle, unheld]

theorem resumeFor_begun (idle : lease.stage = .idle) (begun : lease.resumeFor next = some changed) :
    lease.Begun changed := by
  unfold resumeFor at begun
  split at begun
  · contradiction
  next wait outer _ =>
    split at begun
    · cases begun
      constructor <;> simp [Fits, CpuPermitLease.holding, isWaiting, idle]
    · cases begun
      have same := @acquireFor_begun { lease with waits := { wait with resumed := true } :: outer } next idle
      exact ⟨same.fits, same.holding, same.waiting⟩

theorem begin_begun (idle : lease.stage = .idle) (begun : lease.begin action = some changed) : lease.Begun changed := by
  cases action with
  | acquire =>
    cases begun
    exact acquireFor_begun idle
  | release =>
    cases begun
    split
    · constructor <;> simp_all [Fits, CpuPermitLease.holding, isWaiting, releaseFor]
    · constructor <;> simp_all [Fits, CpuPermitLease.holding, isWaiting]
  | openWait =>
    cases begun
    split
    · constructor <;> simp_all [Fits, CpuPermitLease.holding, isWaiting, releaseFor]
    · constructor <;> simp_all [Fits, CpuPermitLease.holding, isWaiting]
  | resume => exact resumeFor_begun idle begun
  | closeWait =>
    simp only [begin] at begun
    split at begun
    · contradiction
    · cases begun
      constructor <;> simp [Fits, CpuPermitLease.holding, isWaiting, idle]
  | leaveWait thrown => exact resumeFor_begun idle begun
  | destroy =>
    simp only [begin] at begun
    split at begun
    · contradiction
    · cases begun
      split
      · constructor <;> simp_all [Fits, CpuPermitLease.holding, isWaiting, releaseFor]
      · constructor <;> simp_all [Fits, CpuPermitLease.holding, isWaiting]

structure Advanced (lease changed : CpuPermitLease) (gate later : CpuPermitGate) : Prop where
  fits : changed.Fits
  active : later.active + lease.holding.toNat = gate.active + changed.holding.toNat
  waiting : later.waiting + lease.isWaiting.toNat = gate.waiting + changed.isWaiting.toNat
  granted : gate.active < later.active → gate.active < gate.limit ∧ gate.stopping = false
  limit : later.limit = gate.limit

structure Passed (gate later : CpuPermitGate) (outcome : Option SchedulerSubmitStatus) : Prop where
  active : later.active = gate.active + (decide (outcome = some .accepted)).toNat
  waiting : later.waiting + outcome.isSome.toNat = gate.waiting
  limit : later.limit = gate.limit
  granted : outcome = some .accepted → gate.active < gate.limit ∧ gate.stopping = false

theorem pass_passed (entered : gate.waiting ≠ 0) :
    Passed gate (gate.pass cancelled expired).1 (gate.pass cancelled expired).2 := by
  have left : gate.waiting - 1 + 1 = gate.waiting := by omega
  unfold CpuPermitGate.pass
  cases stopping : gate.stopping with
  | true => constructor <;> simp [left]
  | false =>
    cases cancelled with
    | true => constructor <;> simp [left]
    | false =>
      cases expired with
      | true => constructor <;> simp [left]
      | false =>
        by_cases room : gate.active < gate.limit
        · constructor <;> simp [room, left]
          exact stopping
        · constructor <;> simp [room]

theorem advance_advanced (fits : lease.Fits) (active : lease.holding.toNat ≤ gate.active)
    (waiting : lease.isWaiting.toNat ≤ gate.waiting)
    (advanced : lease.advance gate cancelled expired = some (changed, later)) : lease.Advanced changed gate later := by
  obtain ⟨held, stage, waits, ended⟩ := lease
  cases stage with
  | idle => simp [advance] at advanced
  | destroyed => simp [advance] at advanced
  | acquiring entered next =>
    have unheld : held = false := by simpa [Fits] using fits
    let arrived := if entered then gate else { gate with waiting := gate.waiting + 1 }
    have counted : arrived.waiting ≠ 0 ∧ arrived.waiting + entered.toNat = gate.waiting + 1 ∧
        arrived.active = gate.active ∧ arrived.limit = gate.limit ∧ arrived.stopping = gate.stopping := by
      cases entered with
      | true =>
        simp only [isWaiting, Bool.toNat_true] at waiting
        simp only [arrived, if_true, Bool.toNat_true]
        exact ⟨by omega, trivial, trivial, trivial, trivial⟩
      | false => simp [arrived]
    obtain ⟨nonzero, arrivals, sameActive, sameLimit, sameStopping⟩ := counted
    have passed := @pass_passed arrived cancelled expired nonzero
    simp only [advance] at advanced
    split at advanced
    next after status result =>
      cases advanced
      rw [show arrived.pass cancelled expired = _ from result] at passed
      have moved := passed.waiting
      have grew := passed.active
      simp only [Option.isSome_some, Bool.toNat_true, Option.some.injEq] at moved grew
      constructor
      case fits => exact .inr unheld
      case active =>
        simp only [holding, unheld, Bool.false_or, Bool.toNat_false]
        omega
      case waiting =>
        simp only [isWaiting, Bool.toNat_false]
        omega
      case granted =>
        intro more
        have accepted : status = .accepted := by
          by_contra refused
          simp only [refused, decide_false, Bool.toNat_false] at grew
          omega
        have granted := passed.granted (by rw [accepted])
        exact ⟨by omega, sameStopping ▸ granted.2⟩
      case limit => exact passed.limit.trans sameLimit
    next after result =>
      cases advanced
      rw [show arrived.pass cancelled expired = _ from result] at passed
      have moved := passed.waiting
      have grew := passed.active
      simp only [Option.isSome_none, Bool.toNat_false, reduceCtorEq, decide_false] at moved grew
      constructor
      case fits => exact .inr unheld
      case active =>
        simp only [holding, unheld, Bool.false_or, Bool.toNat_false]
        omega
      case waiting =>
        simp only [isWaiting, Bool.toNat_true]
        omega
      case granted => omega
      case limit => exact passed.limit.trans sameLimit
  | answered status next =>
    have unheld : held = false := by simpa [Fits] using fits
    cases advanced
    constructor
    case fits => simp [Fits]
    case active => simp [holding, unheld]
    case waiting => simp [isWaiting]
    case granted => exact fun more => absurd more (Nat.lt_irrefl _)
    case limit => rfl
  | releasing next =>
    have unheld : held = false := by simpa [Fits] using fits
    simp only [holding, Bool.or_true, Bool.toNat_true] at active
    have positive : gate.active ≠ 0 := by omega
    cases advanced
    constructor
    case fits => cases next <;> simp [Fits, released, unheld]
    case active =>
      have one : gate.active - 1 + 1 = gate.active := by omega
      cases next <;> simp [holding, released, unheld, CpuPermitGate.release, positive, one]
    case waiting => cases next <;> simp [isWaiting, released, CpuPermitGate.release, positive]
    case granted =>
      simp only [CpuPermitGate.release, positive, ne_eq, not_false_eq_true, if_true]
      omega
    case limit => simp [CpuPermitGate.release, positive]

end CpuPermitLease

namespace CpuPermits

structure Sound (state : CpuPermits) : Prop where
  active : state.gate.active = total (fun lease => lease.holding.toNat) state.leases
  waiting : state.gate.waiting = total (fun lease => lease.isWaiting.toNat) state.leases
  fits : ∀ lease ∈ state.leases, lease.Fits

variable {state next : CpuPermits} {index limit : Nat} {cancelled expired : Bool} {action : LeaseAction}

theorem initial_sound : (initial limit).Sound := by
  constructor <;> simp [initial, CpuPermitGate.create]

theorem Sound.create (sound : state.Sound) (stepped : state.step .create = some next) : next.Sound := by
  cases stepped
  constructor
  case active => simpa [CpuPermitLease.create, CpuPermitLease.holding] using sound.active
  case waiting => simpa [CpuPermitLease.create, CpuPermitLease.isWaiting] using sound.waiting
  case fits =>
    intro lease member
    rcases List.mem_append.mp member with old | last
    · exact sound.fits lease old
    · rw [List.mem_singleton.mp last]
      exact .inl rfl

theorem Sound.lease (sound : state.Sound) (stepped : state.step (.lease index action) = some next) : next.Sound := by
  obtain ⟨lease, here, stepped⟩ := Option.bind_eq_some_iff.mp stepped
  split at stepped
  next idle =>
    obtain ⟨changed, begun, rfl⟩ := Option.map_eq_some_iff.mp stepped
    have spec := CpuPermitLease.begin_begun idle begun
    have resting : lease.isWaiting = false := by simp [CpuPermitLease.isWaiting, idle]
    constructor
    case active =>
      have moved := @total_set _ state.leases index _ changed (fun lease => lease.holding.toNat) here
      have same := Nat.add_right_cancel (spec.holding ▸ moved)
      exact sound.active.trans same.symm
    case waiting =>
      have moved := @total_set _ state.leases index _ changed (fun lease => lease.isWaiting.toNat) here
      have same := Nat.add_right_cancel ((spec.waiting.trans resting.symm) ▸ moved)
      exact sound.waiting.trans same.symm
    case fits =>
      intro other member
      rcases List.mem_or_eq_of_mem_set member with old | rfl
      · exact sound.fits other old
      · exact spec.fits
  next => contradiction

theorem Sound.advanced {lease changed : CpuPermitLease} {gate : CpuPermitGate} (sound : state.Sound)
    (here : state.leases[index]? = some lease)
    (advanced : lease.advance state.gate cancelled expired = some (changed, gate)) :
    lease.Advanced changed state.gate gate := by
  have active := @le_total _ _ _ _ (fun lease : CpuPermitLease => lease.holding.toNat) here
  have waiting := @le_total _ _ _ _ (fun lease : CpuPermitLease => lease.isWaiting.toNat) here
  exact CpuPermitLease.advance_advanced (sound.fits lease (List.mem_of_getElem? here)) (sound.active ▸ active)
    (sound.waiting ▸ waiting) advanced

theorem Sound.advance (sound : state.Sound) (stepped : state.step (.advance index cancelled expired) = some next) :
    next.Sound := by
  obtain ⟨lease, here, stepped⟩ := Option.bind_eq_some_iff.mp stepped
  obtain ⟨⟨changed, gate⟩, advanced, rfl⟩ := Option.map_eq_some_iff.mp stepped
  have spec := sound.advanced here advanced
  constructor
  case active =>
    have moved := @total_set _ state.leases index _ changed (fun lease => lease.holding.toNat) here
    have before := sound.active
    have step := spec.active
    dsimp only at moved ⊢
    omega
  case waiting =>
    have moved := @total_set _ state.leases index _ changed (fun lease => lease.isWaiting.toNat) here
    have before := sound.waiting
    have step := spec.waiting
    dsimp only at moved ⊢
    omega
  case fits =>
    intro other member
    rcases List.mem_or_eq_of_mem_set member with old | rfl
    · exact sound.fits other old
    · exact spec.fits

theorem Sound.step {action : PermitAction} (sound : state.Sound) (stepped : state.step action = some next) :
    next.Sound := by
  cases action with
  | create => exact sound.create stepped
  | lease index action => exact sound.lease stepped
  | advance index cancelled expired => exact sound.advance stepped
  | setLimit limit =>
    cases stepped
    exact ⟨sound.active, sound.waiting, sound.fits⟩
  | requestShutdown =>
    cases stepped
    exact ⟨sound.active, sound.waiting, sound.fits⟩

theorem run_sound {actions : List PermitAction} (ran : runSteps CpuPermits.step (initial limit) actions = some state) :
    state.Sound :=
  runSteps_keeps Sound.step initial_sound ran

def Quiet (state : CpuPermits) : Prop := ∀ lease ∈ state.leases, lease.stage = .idle ∨ lease.stage = .destroyed

structure PermitsExact (state : CpuPermits) : Prop where
  active : state.gate.active = state.leases.countP CpuPermitLease.holding
  quiet : state.Quiet → state.gate.active = state.leases.countP fun lease => lease.held
  waiting : state.gate.waiting = state.leases.countP CpuPermitLease.isWaiting
  released : ∀ lease ∈ state.leases, ∀ next, lease.stage = .releasing next → state.gate.active ≠ 0
  granted : ∀ (action : PermitAction) (next : CpuPermits), state.step action = some next →
    state.gate.active < next.gate.active → state.gate.active < state.gate.limit ∧ state.gate.stopping = false
  destroyed : (∀ lease ∈ state.leases, lease.stage = .destroyed) → state.gate.active = 0

theorem Sound.granted {action : PermitAction} (sound : state.Sound) (stepped : state.step action = some next)
    (more : state.gate.active < next.gate.active) :
    state.gate.active < state.gate.limit ∧ state.gate.stopping = false := by
  cases action with
  | create =>
    cases stepped
    exact absurd more (Nat.lt_irrefl _)
  | lease index action =>
    obtain ⟨lease, here, stepped⟩ := Option.bind_eq_some_iff.mp stepped
    split at stepped
    · obtain ⟨changed, begun, rfl⟩ := Option.map_eq_some_iff.mp stepped
      exact absurd more (Nat.lt_irrefl _)
    · contradiction
  | advance index cancelled expired =>
    obtain ⟨lease, here, stepped⟩ := Option.bind_eq_some_iff.mp stepped
    obtain ⟨⟨changed, gate⟩, advanced, rfl⟩ := Option.map_eq_some_iff.mp stepped
    exact (sound.advanced here advanced).granted more
  | setLimit limit =>
    cases stepped
    exact absurd more (Nat.lt_irrefl _)
  | requestShutdown =>
    cases stepped
    exact absurd more (Nat.lt_irrefl _)

theorem cpu_permits_exact {actions : List PermitAction}
    (ran : runSteps CpuPermits.step (initial limit) actions = some state) : state.PermitsExact := by
  have sound := run_sound ran
  have active : state.gate.active = state.leases.countP CpuPermitLease.holding := by
    rw [sound.active, total_toNat]
  have held {lease : CpuPermitLease} (member : lease ∈ state.leases)
      (resting : lease.stage = .idle ∨ lease.stage = .destroyed) : lease.holding = lease.held := by
    rcases resting with idle | destroyed
    · simp [CpuPermitLease.holding, idle]
    · simp [CpuPermitLease.holding, destroyed]
  constructor
  case active => exact active
  case quiet =>
    intro quiet
    rw [active]
    apply List.countP_congr
    intro lease member
    rw [held member (quiet lease member)]
  case waiting => rw [sound.waiting, total_toNat]
  case released =>
    intro lease member next releasing
    rw [active]
    have positive : 0 < state.leases.countP CpuPermitLease.holding :=
      List.countP_pos_iff.mpr ⟨lease, member, by simp [CpuPermitLease.holding, releasing]⟩
    omega
  case granted => exact fun action next stepped more => sound.granted stepped more
  case destroyed =>
    intro destroyed
    rw [active, List.countP_eq_zero]
    intro lease member
    have unheld : lease.held = false := by
      rcases sound.fits lease member with idle | unheld
      · simp [destroyed lease member] at idle
      · exact unheld
    simp [held member (.inr (destroyed lease member)), unheld]

def nestedWaits : List PermitAction :=
  [.create, .lease 0 .acquire, .advance 0 false false, .advance 0 false false, .lease 0 .openWait, .advance 0 false false,
    .create, .lease 1 .acquire, .advance 1 false false, .advance 1 false false, .lease 0 .openWait,
    .lease 0 (.leaveWait true), .lease 0 (.leaveWait true), .advance 0 false false, .lease 1 .destroy,
    .advance 1 false false, .advance 0 false false, .advance 0 false false]

theorem cpu_permits_exact_nested_waits :
    ∃ state, runSteps CpuPermits.step (initial 1) nestedWaits = some state ∧ state.PermitsExact :=
  ⟨_, rfl, @cpu_permits_exact _ 1 nestedWaits rfl⟩

end CpuPermits

end SubConverter.Utils
