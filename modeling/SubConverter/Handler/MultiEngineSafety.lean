import SubConverter.Handler.MultiEngineStages

set_option autoImplicit false

namespace SubConverter.Handler.CurlMultiEngine

open Server

section Steps

variable {limits : EngineLimits} {hash : Text → UInt64} {engine after : CurlMultiEngine} {action : EngineAction}
  {input : WorkerInput}

structure Leaves (engine after : CurlMultiEngine) : Prop where
  shutdowns : after.shutdowns = engine.shutdowns
  joined : after.joined = engine.joined
  available : after.available = engine.available
  stopping : after.stopping = engine.stopping

theorem Pops.leaves {popped : CurlMultiEngine} {taken : Nat → Nat} (pops : engine.Pops popped taken) :
    engine.Leaves popped := by
  rw [pops.frame]
  exact ⟨rfl, rfl, rfl, rfl⟩

theorem Leaves.finish {popped : CurlMultiEngine} {index : Nat} {prepared : Transfer} {code : CurlCode} {added : Bool}
    (leaves : engine.Leaves popped) : engine.Leaves (popped.finish limits hash index prepared code added input) := by
  obtain ⟨shutdowns, joined, available, stopping⟩ := leaves
  rcases @Sound.finish_cases limits hash popped index prepared code input added with ⟨_, retryAt, again⟩ | completes
  · rw [again]
    exact ⟨shutdowns, joined, available, stopping⟩
  · rw [completes]
    exact ⟨shutdowns, joined, available, stopping⟩

theorem WorkerChange.leaves (changed : WorkerChange limits hash engine after) : engine.Leaves after := by
  cases changed with
  | routed pops onward => exact pops.leaves
  | idle draining => exact ⟨rfl, rfl, rfl, rfl⟩
  | given pops here prepares handle hopeless => exact pops.leaves.finish
  | ended pops here active prepares handle hopeless => exact pops.leaves.finish
  | started pops here fresh room running =>
    obtain ⟨shutdowns, joined, available, stopping⟩ := pops.leaves
    exact ⟨shutdowns, joined, available, stopping⟩

def Left (engine : CurlMultiEngine) : Prop := engine.worker = .exited ∧ engine.available = false

def Promised (engine : CurlMultiEngine) : ShutdownStage → Prop
  | .closes => engine.Left
  | .returned false => engine.joined = true
  | _ => True

structure Joins (engine : CurlMultiEngine) : Prop where
  stages : ∀ stage ∈ engine.shutdowns, engine.Promised stage
  joined : engine.joined = true → engine.Left

theorem Joins.next (joins : engine.Joins) (left : engine.Left → after.Left) (last : after.joined = true → engine.joined = true ∨ after.Left)
    (joined : engine.joined = true → after.joined = true)
    (stages : ∀ stage ∈ after.shutdowns, stage ∈ engine.shutdowns ∨ after.Promised stage) : after.Joins where
  stages := by
    intro stage member
    rcases stages stage member with before | promised
    · have promised := joins.stages stage before
      cases stage with
      | closes => exact left promised
      | returned onWorker =>
        cases onWorker with
        | false => exact joined promised
        | true => trivial
      | _ => trivial
    · exact promised
  joined := fun joined => (last joined).elim (fun before => left (joins.joined before)) id

theorem Joins.kept (joins : engine.Joins) (shutdowns : after.shutdowns = engine.shutdowns)
    (joined : after.joined = engine.joined) (left : engine.Left → after.Left) : after.Joins :=
  joins.next left (fun later => .inl (joined ▸ later)) (fun before => joined.trans before)
    fun _ member => .inl (shutdowns ▸ member)

theorem promised_append {stage : ShutdownStage} (promised : after.Promised stage) :
    ∀ other ∈ engine.shutdowns ++ [stage], other ∈ engine.shutdowns ∨ after.Promised other := by
  intro other member
  refine (List.mem_append.mp member).imp_right fun last => ?_
  cases List.mem_singleton.mp last
  exact promised

theorem promised_set {stage : ShutdownStage} {index : Nat} (promised : after.Promised stage) :
    ∀ other ∈ engine.shutdowns.set index stage, other ∈ engine.shutdowns ∨ after.Promised other := by
  intro other member
  refine (List.mem_or_eq_of_mem_set member).imp_right fun equal => ?_
  rwa [equal]

structure Reached (limits : EngineLimits) (engine : CurlMultiEngine) : Prop where
  sound : engine.Sound limits
  staged : engine.Staged limits
  joins : engine.Joins

inductive ClientChange (engine : CurlMultiEngine) : CurlMultiEngine → Prop where
  | quiet {after : CurlMultiEngine} (quiet : Quiet engine after) (joins : engine.Joins → after.Joins) :
    ClientChange engine after
  | submitted (request : AsyncFetchRequest) (sizeLimit : Int) : ClientChange engine (engine.submit request sizeLimit)
  | called {easy index : Nat} {transfer : Transfer} (callback : Callback) (performing : engine.worker = .performing)
      (found : Keyed.find easy engine.active = some index) (here : engine.transfers[index]? = some transfer) :
      ClientChange engine { engine with transfers := engine.transfers.set index (engine.called transfer callback) }

theorem requested_kept {token : Option Nat}
    (kept : ∀ (index : Nat) (reason : RequestCancellationReason), engine.cancellations[index]? = some reason →
      reason ≠ .none → after.cancellations[index]? = some reason)
    (requested : engine.isCancellationRequested token = true) : after.isCancellationRequested token = true := by
  have wanted : engine.reason token ≠ .none := of_decide_eq_true requested
  apply decide_eq_true
  unfold CurlMultiEngine.reason at wanted ⊢
  cases token with
  | none => exact wanted
  | some index =>
    rw [Option.bind_some] at wanted ⊢
    cases here : engine.cancellations[index]? with
    | none => exact absurd (by rw [here]; rfl) wanted
    | some reason =>
      rw [here, Option.getD_some] at wanted
      rwa [kept index reason here wanted, Option.getD_some]

theorem shutdown_changes {onWorker : Bool} (stepped : engine.shutdown onWorker = some after) :
    ClientChange engine after := by
  unfold CurlMultiEngine.shutdown at stepped
  split at stepped
  next joined =>
    cases stepped
    exact .quiet ⟨rfl, le_rfl, fun _ => id, id, id⟩ fun joins => joins.next id .inl id (promised_append joined)
  next =>
    dsimp only at stepped
    split at stepped
    · split at stepped
      · contradiction
      · cases stepped
        exact .quiet ⟨rfl, le_rfl, fun _ => id, fun _ => rfl, id⟩ fun joins => joins.next id .inl id (promised_append trivial)
    split at stepped
    · cases stepped
      exact .quiet ⟨rfl, le_rfl, fun _ => id, fun _ => rfl, id⟩ fun joins => joins.next id .inl id (promised_append trivial)
    · cases stepped
      exact .quiet ⟨rfl, le_rfl, fun _ => id, fun _ => rfl, id⟩ fun joins => joins.next id .inl id (promised_append trivial)

theorem advance_changes {index : Nat} {stage : ShutdownStage} (here : engine.shutdowns[index]? = some stage)
    (stepped : engine.advanceShutdown index stage = some after) : ClientChange engine after := by
  cases stage with
  | joins =>
    simp only [advanceShutdown] at stepped
    split at stepped
    next exited =>
      cases stepped
      exact .quiet ⟨rfl, le_rfl, fun _ => id, id, fun _ => rfl⟩ fun joins =>
        joins.next (fun left => ⟨left.1, rfl⟩) .inl id (promised_set ⟨exited, rfl⟩)
    next => contradiction
  | closes =>
    cases stepped
    exact .quiet ⟨rfl, le_rfl, fun _ => id, id, id⟩ fun joins =>
      joins.next id (fun _ => .inr (joins.stages _ (List.mem_of_getElem? here))) (fun _ => rfl) (promised_set rfl)
  | awaits =>
    simp only [advanceShutdown] at stepped
    split at stepped
    next joined =>
      cases stepped
      exact .quiet ⟨rfl, le_rfl, fun _ => id, id, id⟩ fun joins => joins.next id .inl id (promised_set joined)
    next => contradiction
  | returned onWorker => contradiction

theorem step_cases (stepped : engine.step limits hash action = some after) :
    (∃ input, action = .worker input ∧ engine.workerStep limits hash input = some after) ∨ ClientChange engine after := by
  cases action with
  | tick elapsed =>
    cases stepped
    exact .inr (.quiet ⟨rfl, Nat.le_add_right _ _, fun _ => id, id, id⟩ fun joins => joins.kept rfl rfl id)
  | createToken =>
    cases stepped
    have tokens (token : Option Nat) :=
      @requested_kept engine { engine with cancellations := engine.cancellations ++ [.none] } token
        fun index reason here _ => by rwa [lookup_concat, if_neg (Nat.ne_of_lt (List.getElem?_eq_some_iff.mp here).1)]
    exact .inr (.quiet ⟨rfl, le_rfl, tokens, id, id⟩ fun joins => joins.kept rfl rfl id)
  | cancel token reason =>
    simp only [step] at stepped
    split at stepped
    next free =>
      cases stepped
      have tokens (other : Option Nat) :=
        @requested_kept engine { engine with cancellations := engine.cancellations.set token reason } other
          fun index found here requested => by
            rw [lookup_set free, if_neg]
            · exact here
            · rintro rfl
              exact requested (Option.some.inj (here.symm.trans free))
      exact .inr (.quiet ⟨rfl, le_rfl, tokens, id, id⟩ fun joins => joins.kept rfl rfl id)
    next => contradiction
  | requestPrune | requestOutboundShutdown =>
    cases stepped
    exact .inr (.quiet ⟨rfl, le_rfl, fun _ => id, id, id⟩ fun joins => joins.kept rfl rfl id)
  | submit request sizeLimit =>
    cases stepped
    exact .inr (.submitted request sizeLimit)
  | shutdown onWorker => exact .inr (shutdown_changes stepped)
  | advanceShutdown index =>
    obtain ⟨stage, here, advanced⟩ := Option.bind_eq_some_iff.mp stepped
    exact .inr (advance_changes here advanced)
  | callback easy callback =>
    simp only [step] at stepped
    split at stepped
    next performing =>
      obtain ⟨index, found, stepped⟩ := Option.bind_eq_some_iff.mp stepped
      obtain ⟨transfer, here, rfl⟩ := Option.map_eq_some_iff.mp stepped
      exact .inr (.called callback performing found here)
    next => contradiction
  | worker input => exact .inl ⟨input, rfl, stepped⟩

theorem submit_frame {request : AsyncFetchRequest} {sizeLimit : Int} :
    engine.Leaves (engine.submit request sizeLimit) ∧ (engine.submit request sizeLimit).worker = engine.worker ∧
      (engine.submit request sizeLimit).delayed = engine.delayed := by
  unfold CurlMultiEngine.submit
  dsimp only
  split <;> exact ⟨⟨rfl, rfl, rfl, rfl⟩, rfl, rfl⟩

theorem reached_worker (reached : engine.Reached limits) (stepped : engine.workerStep limits hash input = some after) :
    after.Reached limits := by
  obtain ⟨changed, staged⟩ := workerStep_changes reached.sound reached.staged stepped
  refine ⟨reached.sound.worker_changed changed, staged, ?_⟩
  obtain ⟨shutdowns, joined, available, stopping⟩ := changed.leaves
  refine reached.joins.kept shutdowns joined fun left => ?_
  rw [workerStep, left.1] at stepped
  contradiction

theorem step_reached (reached : engine.Reached limits) (stepped : engine.step limits hash action = some after) :
    after.Reached limits := by
  obtain ⟨sound, staged, joins⟩ := reached
  rcases step_cases stepped with ⟨input, rfl, stepped⟩ | changed
  · exact reached_worker ⟨sound, staged, joins⟩ stepped
  cases changed with
  | quiet quiet kept => exact ⟨sound.carry quiet, quiet.between.staged staged, kept joins⟩
  | submitted request sizeLimit =>
    obtain ⟨⟨shutdowns, joined, available, _⟩, worker, _⟩ := @submit_frame engine request sizeLimit
    exact ⟨sound.submit, submit_between.staged staged,
      joins.kept shutdowns joined fun left => ⟨worker.trans left.1, available.trans left.2⟩⟩
  | called callback performing found here =>
    refine ⟨sound.called found here, ⟨?_, ?_⟩, joins.kept rfl rfl id⟩
    · rw [performing]
      exact Nat.zero_le _
    · rw [performing]
      trivial

theorem initial_reached (available : Bool) : (initial available).Reached limits where
  sound := {
    places := by
      intro index
      cases available <;> rfl
    handles := by simp [initial]
    distinct := List.nodup_nil
    pending := rfl
    active := rfl
    fits := by simp [initial]
    window := fun _ => Nat.zero_le _ }
  staged := by
    cases available with
    | true => exact ⟨le_rfl, trivial⟩
    | false => exact ⟨le_rfl, .inr rfl, rfl, rfl, rfl⟩
  joins := by constructor <;> simp [initial]

theorem run_reached {available : Bool} {actions : List EngineAction}
    (ran : runSteps (step limits hash) (initial available) actions = some engine) : engine.Reached limits :=
  runSteps_keeps step_reached (initial_reached available) ran

end Steps

section Results

variable {limits : EngineLimits} {hash : Text → UInt64} {engine after : CurlMultiEngine} {available : Bool}
  {actions : List EngineAction} {action : EngineAction} {input : WorkerInput}

structure Once (engine : CurlMultiEngine) : Prop where
  transfers : ∀ (index : Nat) (transfer : Transfer), engine.transfers[index]? = some transfer →
    engine.placed index + transfer.answers.length = 1
  others : ∀ index, engine.transfers.length ≤ index → engine.placed index = 0
  pending : engine.pendingCount = (engine.pending.length + engine.delayed.length) % 2 ^ 64
  active : engine.activeCount = engine.active.length % 2 ^ 64

theorem Sound.once (sound : engine.Sound limits) : engine.Once where
  transfers := by
    intro index transfer here
    have single := sound.places index
    have answers := (sound.fits here).answers
    rw [unfinished, here, Option.any_some] at single
    cases completed : transfer.completed with
    | true => simp_all
    | false => simp_all
  others := by
    intro index beyond
    rw [sound.places, unfinished, List.getElem?_eq_none beyond]
    rfl
  pending := sound.pending
  active := sound.active

def adaptive : EngineResources :=
  { effectiveMode := chars "adaptive", startupBudgetApplied := false, suggestedOutboundConnections := 2, nofileSoft := 0
    memoryHighBytes := 0, memoryMaxBytes := 0, hostTotalMemoryBytes := 0, maxEntries := 8 }

def adaptiveRun (actions : List EngineAction) : Option CurlMultiEngine :=
  runSteps (step (engineLimits adaptive) fun _ => 0) (initial true) actions

def reachedBy (actions : List EngineAction) : CurlMultiEngine := (adaptiveRun actions).getD (initial true)

def works (times : Nat) : List EngineAction := List.replicate times (.worker {})

def starts (easy : Nat) : List EngineAction := [.worker { configure := .ready easy, added := true }]

def twoTransfers : List EngineAction :=
  [.submit { deadline := some 5000000000 } 4, .submit { method := .post } 0] ++ works 4 ++ starts 7 ++ works 1 ++ starts 8 ++
    works 1 ++ [.callback 7 (.body [65, 66] true)] ++ works 1

def shutDown : List EngineAction :=
  twoTransfers ++ [.worker { message := some (7, .recvError) }] ++ works 1 ++ [.worker { order := [(8, 1)] }] ++ works 10 ++
    [.worker { message := some (8, .ok), attempt := ⟨200, false, 0, []⟩ }] ++ works 3 ++ [.shutdown false] ++ works 5 ++
    [.advanceShutdown 0, .advanceShutdown 0]

theorem ran_twoTransfers : adaptiveRun twoTransfers = some (reachedBy twoTransfers) := by decide +kernel

theorem ran_shutDown : adaptiveRun shutDown = some (reachedBy shutDown) := by decide +kernel

theorem answered_of_exited (reached : engine.Reached limits) (exited : engine.worker = .exited) {index : Nat}
    {transfer : Transfer} (here : engine.transfers[index]? = some transfer) : transfer.answers.length = 1 := by
  have known := reached.staged.known
  rw [exited] at known
  obtain ⟨_, pending, delayed, active⟩ := known
  have nowhere : engine.placed index = 0 := by
    simp [CurlMultiEngine.placed, pending, delayed, active, exited, WorkerStage.held]
  have once := reached.sound.once.transfers index transfer here
  rwa [nowhere, Nat.zero_add] at once

structure AllCompleted (engine : CurlMultiEngine) : Prop where
  worker : engine.worker = .exited
  available : engine.available = false
  completed : ∀ (index : Nat) (transfer : Transfer), engine.transfers[index]? = some transfer → transfer.answers.length = 1
  pending : engine.pendingCount = 0
  active : engine.activeCount = 0

theorem shutdown_completes (ran : runSteps (step limits hash) (initial available) actions = some engine)
    (returned : .returned false ∈ engine.shutdowns) : engine.AllCompleted := by
  have reached := run_reached ran
  obtain ⟨exited, closed⟩ := reached.joins.joined (reached.joins.stages _ returned)
  have known := reached.staged.known
  rw [exited] at known
  obtain ⟨_, pending, delayed, active⟩ := known
  constructor
  case worker => exact exited
  case available => exact closed
  case completed => exact fun index transfer here => answered_of_exited reached exited here
  case pending => rw [reached.sound.pending, pending, delayed]; rfl
  case active => rw [reached.sound.active, active]; rfl

theorem shutdown_completes_delayed :
    .returned false ∈ (reachedBy shutDown).shutdowns ∧ (reachedBy shutDown).AllCompleted := by
  have returned : .returned false ∈ (reachedBy shutDown).shutdowns := by decide +kernel
  exact ⟨returned, shutdown_completes ran_shutDown returned⟩

theorem finish_delayed {popped : CurlMultiEngine} {index : Nat} {prepared : Transfer} {code : CurlCode} {added : Bool}
    (hopeless : popped.Hopeless prepared code) :
    (popped.finish limits hash index prepared code added input).delayed = popped.delayed := by
  rw [Sound.finish_hopeless hopeless]

theorem delayed_shrinks (reached : engine.Reached limits) (stepped : engine.step limits hash action = some after)
    (elsewhere : engine.worker ≠ .draining) : after.delayed.Sublist engine.delayed := by
  have same (kept : after.delayed = engine.delayed) : after.delayed.Sublist engine.delayed := kept ▸ .refl _
  rcases step_cases stepped with ⟨input, rfl, stepped⟩ | changed
  · cases (workerStep_changes reached.sound reached.staged stepped).1 with
    | routed pops onward => exact pops.delayed
    | idle draining => exact .refl _
    | given pops here prepares handle hopeless =>
      rw [finish_delayed hopeless]
      exact pops.delayed
    | ended pops here active prepares handle hopeless =>
      rw [finish_delayed (hopeless.resolve_left fun draining => elsewhere draining.1)]
      exact pops.delayed
    | started pops here fresh room running => exact pops.delayed
  · cases changed with
    | quiet quiet joins =>
      apply same
      rw [quiet.frame]
    | submitted request sizeLimit => exact same submit_frame.2.2
    | called callback performing found here => exact same rfl

structure Transfer.Bounded (limits : EngineLimits) (transfer : Transfer) : Prop where
  attempts : transfer.attempts ≤ 1 + retryLimit limits transfer
  retries : transfer.retryAttempts ≤ retryLimit limits transfer
  idempotent : 1 < transfer.attempts ∨ transfer.retryAttempts ≠ 0 →
    transfer.request.method = .get ∨ transfer.request.method = .head
  sized : 0 < transfer.sizeLimit → transfer.result.content.length ≤ transfer.sizeLimit.toNat
  delivered : 0 < transfer.sizeLimit → ∀ result ∈ transfer.answers, result.content.length ≤ transfer.sizeLimit.toNat

theorem Transfer.Fits.answer {transfer : Transfer} (fits : transfer.Fits limits) {result : AsyncFetchResult}
    (member : result ∈ transfer.answers) : transfer.completed = true ∧ result = transfer.result := by
  have answers := fits.answers
  cases completed : transfer.completed with
  | false =>
    rw [completed, if_neg Bool.false_ne_true] at answers
    rw [answers] at member
    cases member
  | true =>
    rw [completed, if_pos rfl] at answers
    rw [answers] at member
    exact ⟨rfl, List.mem_singleton.mp member⟩

theorem Transfer.Fits.limited {transfer : Transfer} (fits : transfer.Fits limits) : transfer.Bounded limits where
  attempts := by
    have bounded := fits.bounded
    have retries := fits.retries
    omega
  retries := fits.retries
  idempotent := by
    have bounded := fits.bounded
    intro again
    exact fits.idempotent (by omega)
  sized := fits.sized
  delivered := by
    intro positive result member
    rw [(fits.answer member).2]
    exact fits.sized positive

/-- What every run of the engine keeps. `draining` is `drainMessages`; the loops over the delayed transfers all lie in
other stages. -/
structure Exact (limits : EngineLimits) (hash : Text → UInt64) (engine : CurlMultiEngine) : Prop where
  once : engine.Once
  exited : engine.worker = .exited → ∀ {index : Nat} {transfer : Transfer}, engine.transfers[index]? = some transfer →
    transfer.answers.length = 1
  bounded : ∀ {index : Nat} {transfer : Transfer}, engine.transfers[index]? = some transfer → transfer.Bounded limits
  window : limits.handleWindow ≠ 0 → engine.active.length ≤ limits.handleWindow
  delayed : ∀ {action : EngineAction} {after : CurlMultiEngine}, engine.step limits hash action = some after →
    engine.worker ≠ .draining → after.delayed.Sublist engine.delayed

theorem transfers_exact (ran : runSteps (step limits hash) (initial available) actions = some engine) :
    engine.Exact limits hash where
  once := (run_reached ran).sound.once
  exited := fun exited _ _ here => answered_of_exited (run_reached ran) exited here
  bounded := fun here => ((run_reached ran).sound.fits here).limited
  window := (run_reached ran).sound.window
  delayed := fun stepped elsewhere => delayed_shrinks (run_reached ran) stepped elsewhere

theorem transfers_exact_delayed : (reachedBy shutDown).Exact (engineLimits adaptive) fun _ => 0 := transfers_exact ran_shutDown

-- A negative limit: `bodyWriter` looks at positive ones only.
def unlimited : List EngineAction :=
  [.submit {} (-1)] ++ works 4 ++ starts 7 ++ works 1 ++ [.callback 7 (.body [65] true)] ++ works 1 ++
    [.worker { message := some (7, .ok), attempt := ⟨200, false, 0, []⟩ }]

theorem captured_beyond_limit : ¬∀ (actions : List EngineAction) (engine : CurlMultiEngine), adaptiveRun actions = some engine →
    ∀ (index : Nat) (transfer : Transfer), engine.transfers[index]? = some transfer → transfer.sizeLimit ≠ 0 →
      ∀ result ∈ transfer.answers, (result.content.length : Int) ≤ transfer.sizeLimit := by
  intro within
  have ran : adaptiveRun unlimited = some (reachedBy unlimited) := by decide +kernel
  have here : (reachedBy unlimited).transfers[0]?.any (fun transfer => transfer.sizeLimit = -1 ∧
      transfer.answers.any fun result => result.content = [65]) = true := by decide +kernel
  obtain ⟨transfer, found, limit⟩ := Option.any_eq_true _ _ |>.mp here
  simp only [decide_eq_true_eq, List.any_eq_true] at limit
  obtain ⟨limit, result, member, content⟩ := limit
  have small := within _ _ ran 0 transfer found (by rw [limit]; decide) result member
  rw [limit, content] at small
  exact absurd small (by decide)

structure Delivered (transfer : Transfer) (result : AsyncFetchResult) : Prop where
  sized : 0 < transfer.sizeLimit → result.content.length ≤ transfer.sizeLimit.toNat
  charged : result.content.length + result.responseHeaders.length ≤
    if transfer.inContext then transfer.progress.contextRetainedBytes else result.retainedBytes
  cleared : transfer.request.keepRespOnFail = false → result.transportCode ≠ .ok ∨ result.statusCode ≠ 200 →
    result.content = []
  sound : result.failure = .none → result.transportCode = .ok

theorem results_delivered (ran : runSteps (step limits hash) (initial available) actions = some engine) {index : Nat}
    {transfer : Transfer} (here : engine.transfers[index]? = some transfer) :
    ∀ result ∈ transfer.answers, Delivered transfer result := by
  intro result member
  have fits := (run_reached ran).sound.fits here
  obtain ⟨completed, rfl⟩ := fits.answer member
  exact ⟨fits.sized, fits.accounted, fits.cleared completed, fits.sound completed⟩

theorem results_delivered_delayed : ∃ transfer, (reachedBy shutDown).transfers[0]? = some transfer ∧
    ∀ result ∈ transfer.answers, Delivered transfer result := by
  have here : (reachedBy shutDown).transfers[0]?.isSome = true := by decide +kernel
  exact ⟨_, (Option.some_get here).symm, results_delivered ran_shutDown (Option.some_get here).symm⟩

theorem engineLimits_connections (resources : EngineResources) :
    1 ≤ (engineLimits resources).activeConnectionLimit ∧
      (engineLimits resources).activeConnectionLimit ≤ (engineLimits resources).connectionCacheLimit ∧
      (engineLimits resources).connectionCacheLimit = (engineLimits resources).openConnectionLimit ∧
      (engineLimits resources).openConnectionLimit ≤ 1024 := by
  have cached (active : Nat) (low : 1 ≤ active) (high : active ≤ 1024) :
      active ≤ cachedConnections resources active ∧ cachedConnections resources active ≤ 1024 := by
    unfold cachedConnections
    dsimp only
    constructor
    · split_ifs <;> omega
    · split_ifs <;> omega
  have large : (1024 : Nat) ≤ longMax := by decide
  simp only [engineLimits]
  by_cases performance : performanceFetchMode resources = true
  · have bounds := cached (max 1 (min resources.suggestedOutboundConnections 1024)) (by omega) (by omega)
    simp only [performance, if_true]
    omega
  · simp only [performance]
    simp only [Bool.false_eq_true, if_false]
    omega

theorem handles_within_connections {resources : EngineResources} (performance : performanceFetchMode resources = true)
    (ran : runSteps (step (engineLimits resources) hash) (initial available) actions = some engine) :
    engine.active.length ≤ (engineLimits resources).activeConnectionLimit ∧
      engine.active.length ≤ (engineLimits resources).connectionCacheLimit ∧ engine.active.length ≤ 1024 := by
  obtain ⟨positive, cached, same, bounded⟩ := engineLimits_connections resources
  have window : (engineLimits resources).handleWindow = (engineLimits resources).activeConnectionLimit := by
    simp [engineLimits, performance]
  have kept := (run_reached ran).sound.window (by rw [window]; exact Nat.ne_of_gt positive)
  rw [window] at kept
  omega

theorem handles_within_connections_two : performanceFetchMode adaptive = true ∧
    (reachedBy twoTransfers).active.length ≤ (engineLimits adaptive).activeConnectionLimit := by
  have performance : performanceFetchMode adaptive = true := by decide +kernel
  exact ⟨performance, (handles_within_connections performance ran_twoTransfers).1⟩

def openTransfers (engine : CurlMultiEngine) : Nat := total (fun transfer => (!transfer.completed).toNat) engine.transfers

def rank (engine : CurlMultiEngine) : Nat := engine.openTransfers * 19 + engine.worker.phase

end Results

end SubConverter.Handler.CurlMultiEngine
