import SubConverter.Lib.Interleaving

set_option autoImplicit false

namespace SubConverter.Utils

inductive ExecutorSubmitStatus where
  | accepted
  | queueFull
  | recursive
  | deadline
  | cancelled
  | stopping
deriving DecidableEq, Repr

inductive SubmitKind where
  | trySubmit
  | submitUntil
deriving DecidableEq, Repr

/-- A call that submits a task; `nested` when the calling thread is a worker of this executor. -/
structure ExecutorSubmission where
  kind : SubmitKind
  nested : Bool
  status : Option ExecutorSubmitStatus
deriving DecidableEq, Repr

inductive ExecutorWorker where
  | idle
  | holding (task : Nat)
  | running (task : Nat)
  | exited
deriving DecidableEq, Repr

structure BoundedExecutor where
  queueCapacity : Nat
  tasks : List Nat
  stopping : Bool
  workers : List ExecutorWorker
  submissions : List ExecutorSubmission
  -- The history: tasks in the order in which they were accepted, taken from the queue, started and finished, and the
  -- tasks that a cancelling shutdown dropped.
  accepted : List Nat
  taken : List Nat
  started : List Nat
  finished : List Nat
  cancelling : Bool
  dropped : List Nat
deriving DecidableEq, Repr

inductive ExecutorAction where
  | submit (kind : SubmitKind) (nested : Bool)
  | pass (index : Nat) (cancelled expired waitedOut : Bool)
  | take (worker : Nat)
  | start (worker : Nat)
  | finish (worker : Nat)
  | requestShutdown (cancelPending : Bool)
deriving DecidableEq, Repr

namespace BoundedExecutor

def initial (workerCount queueCapacity : Nat) : BoundedExecutor :=
  { queueCapacity := if queueCapacity = 0 then 1 else queueCapacity
    tasks := [], stopping := false, workers := List.replicate workerCount .idle, submissions := []
    accepted := [], taken := [], started := [], finished := [], cancelling := false, dropped := [] }

/-- What the critical section of `trySubmit`, or one pass of the loop of `submitUntil`, decides. -/
def decision (executor : BoundedExecutor) (submission : ExecutorSubmission) (cancelled expired waitedOut : Bool) :
    Option ExecutorSubmitStatus :=
  match submission.kind with
  | .trySubmit =>
    if executor.stopping then some .stopping
    else if submission.nested then some .recursive
    else if executor.queueCapacity ≤ executor.tasks.length then some .queueFull
    else some .accepted
  | .submitUntil =>
    if executor.stopping then some .stopping
    else if submission.nested then some .recursive
    else if cancelled then some .cancelled
    else if expired then some .deadline
    else if waitedOut then some .queueFull
    else if executor.tasks.length < executor.queueCapacity then some .accepted
    else none

def pass (executor : BoundedExecutor) (index : Nat) (submission : ExecutorSubmission)
    (cancelled expired waitedOut : Bool) : Option BoundedExecutor :=
  if submission.status.isSome then none
  else match executor.decision submission cancelled expired waitedOut with
    | none => some executor
    | some status =>
      let decided := { executor with submissions := executor.submissions.set index { submission with status := status } }
      if status = .accepted then
        some { decided with tasks := executor.tasks ++ [index], accepted := executor.accepted ++ [index] }
      else some decided

/-- The critical section of a worker. -/
def take (executor : BoundedExecutor) (worker : Nat) : Option BoundedExecutor :=
  match executor.tasks with
  | task :: rest =>
    some { executor with
      tasks := rest
      taken := executor.taken ++ [task]
      workers := executor.workers.set worker (.holding task) }
  | [] => if executor.stopping then some { executor with workers := executor.workers.set worker .exited } else none

def step (executor : BoundedExecutor) : ExecutorAction → Option BoundedExecutor
  | .submit kind nested => some { executor with submissions := executor.submissions ++ [⟨kind, nested, none⟩] }
  | .pass index cancelled expired waitedOut =>
    executor.submissions[index]?.bind fun submission => executor.pass index submission cancelled expired waitedOut
  | .take worker => if executor.workers[worker]? = some .idle then executor.take worker else none
  | .start worker =>
    match executor.workers[worker]? with
    | some (.holding task) =>
      some { executor with
        workers := executor.workers.set worker (.running task), started := executor.started ++ [task] }
    | _ => none
  | .finish worker =>
    match executor.workers[worker]? with
    | some (.running task) =>
      some { executor with workers := executor.workers.set worker .idle, finished := executor.finished ++ [task] }
    | _ => none
  | .requestShutdown cancelPending =>
    if executor.stopping then some executor
    else if cancelPending then
      some { executor with stopping := true, tasks := [], cancelling := true, dropped := executor.tasks }
    else some { executor with stopping := true }

end BoundedExecutor

namespace ExecutorWorker

def holds (task : Nat) : ExecutorWorker → Nat
  | .holding held => if held = task then 1 else 0
  | _ => 0

def runs (task : Nat) : ExecutorWorker → Nat
  | .running run => if run = task then 1 else 0
  | _ => 0

def pending : ExecutorWorker → List Nat
  | .holding task => [task]
  | _ => []

end ExecutorWorker

namespace BoundedExecutor

structure Sound (workerCount : Nat) (executor : BoundedExecutor) : Prop where
  workers : executor.workers.length = workerCount
  capacity : executor.tasks.length ≤ executor.queueCapacity
  accepted : executor.accepted = executor.taken ++ executor.dropped ++ executor.tasks
  distinct : executor.accepted.Nodup
  decided : ∀ index submission, executor.submissions[index]? = some submission →
    (submission.status = some .accepted ↔ index ∈ executor.accepted)
  known : ∀ index ∈ executor.accepted, index < executor.submissions.length
  started : ∀ task, executor.started.count task + total (ExecutorWorker.holds task) executor.workers =
    executor.taken.count task
  finished : ∀ task, executor.finished.count task + total (ExecutorWorker.runs task) executor.workers =
    executor.started.count task
  single : workerCount = 1 → executor.started ++ executor.workers.flatMap ExecutorWorker.pending = executor.taken
  exited : .exited ∈ executor.workers → executor.stopping = true ∧ executor.tasks = []
  live : executor.stopping = false → executor.dropped = []
  cancelled : executor.dropped ≠ [] → executor.cancelling = true ∧ executor.tasks = []

variable {executor next : BoundedExecutor} {workerCount queueCapacity index worker : Nat} {kind : SubmitKind}
  {nested cancelled expired waitedOut cancelPending : Bool} {submission : ExecutorSubmission}

theorem initial_sound : (initial workerCount queueCapacity).Sound workerCount := by
  constructor
  case started => simp [initial, total_eq_zero_iff, ExecutorWorker.holds]
  case finished => simp [initial, total_eq_zero_iff, ExecutorWorker.runs]
  case single =>
    intro one
    simp [initial, one, ExecutorWorker.pending]
  all_goals simp [initial]

theorem Sound.submit (sound : executor.Sound workerCount) (stepped : executor.step (.submit kind nested) = some next) :
    next.Sound workerCount := by
  cases stepped
  constructor
  case decided =>
    apply forall_lookup_concat
    next =>
      simp only [reduceCtorEq, false_iff]
      exact fun member => Nat.lt_irrefl _ (sound.known _ member)
    next => exact sound.decided
  case known =>
    intro index member
    have inside := sound.known index member
    simp only [List.length_append, List.length_singleton]
    omega
  case workers => exact sound.workers
  case capacity => exact sound.capacity
  case accepted => exact sound.accepted
  case distinct => exact sound.distinct
  case started => exact sound.started
  case finished => exact sound.finished
  case single => exact sound.single
  case exited => exact sound.exited
  case live => exact sound.live
  case cancelled => exact sound.cancelled

theorem decision_accepted
    (accepts : executor.decision submission cancelled expired waitedOut = some .accepted) :
    executor.stopping = false ∧ executor.tasks.length < executor.queueCapacity := by
  unfold decision at accepts
  cases stopping : executor.stopping with
  | true => cases kind : submission.kind <;> simp [stopping, kind] at accepts
  | false =>
    refine ⟨rfl, ?_⟩
    by_contra full
    have most : executor.queueCapacity ≤ executor.tasks.length := by omega
    cases kind : submission.kind <;> simp only [kind, stopping, Bool.false_eq_true, if_false, most, if_true, full] at accepts
    all_goals split_ifs at accepts <;> simp at accepts

theorem Sound.accept (sound : executor.Sound workerCount) (here : executor.submissions[index]? = some submission)
    (undecided : submission.status = none) (live : executor.stopping = false)
    (room : executor.tasks.length < executor.queueCapacity) :
    { executor with
      submissions := executor.submissions.set index { submission with status := some .accepted }
      tasks := executor.tasks ++ [index]
      accepted := executor.accepted ++ [index] }.Sound workerCount := by
  have fresh : index ∉ executor.accepted := by
    rw [← sound.decided index submission here, undecided]
    simp
  constructor
  case capacity =>
    simp only [List.length_append, List.length_singleton]
    omega
  case accepted => simp [sound.accepted]
  case distinct =>
    apply List.Nodup.append sound.distinct (List.nodup_singleton _)
    simpa using fresh
  case decided =>
    refine forall_lookup_set here ?_ ?_
    next => simp
    next =>
      intro other found apart present
      simpa [apart] using sound.decided other found present
  case known =>
    intro other member
    simp only [List.length_set]
    rcases List.mem_append.mp member with old | last
    · exact sound.known other old
    · rw [List.mem_singleton.mp last]
      exact (List.getElem?_eq_some_iff.mp here).1
  case exited =>
    intro member
    have exited := sound.exited member
    simp [live] at exited
  case cancelled =>
    intro dropped
    exact absurd (sound.live live) dropped
  case workers => exact sound.workers
  case started => exact sound.started
  case finished => exact sound.finished
  case single => exact sound.single
  case live => exact sound.live

theorem Sound.refuse {status : ExecutorSubmitStatus} (sound : executor.Sound workerCount)
    (here : executor.submissions[index]? = some submission) (undecided : submission.status = none)
    (refused : status ≠ .accepted) :
    { executor with
      submissions := executor.submissions.set index { submission with status := some status } }.Sound workerCount := by
  constructor
  case decided =>
    refine forall_lookup_set here ?_ ?_
    next =>
      have before := sound.decided index submission here
      simpa [undecided, refused] using before
    next => exact fun other found _ present => sound.decided other found present
  case known =>
    intro other member
    simpa using sound.known other member
  case workers => exact sound.workers
  case capacity => exact sound.capacity
  case accepted => exact sound.accepted
  case distinct => exact sound.distinct
  case started => exact sound.started
  case finished => exact sound.finished
  case single => exact sound.single
  case exited => exact sound.exited
  case live => exact sound.live
  case cancelled => exact sound.cancelled

theorem Sound.pass (sound : executor.Sound workerCount)
    (stepped : executor.step (.pass index cancelled expired waitedOut) = some next) : next.Sound workerCount := by
  obtain ⟨submission, here, stepped⟩ := Option.bind_eq_some_iff.mp stepped
  simp only [BoundedExecutor.pass] at stepped
  split at stepped
  · contradiction
  next undecided =>
    simp only [Option.not_isSome_iff_eq_none] at undecided
    split at stepped
    · cases stepped
      exact sound
    next status decision =>
      split at stepped
      next accepts =>
        subst accepts
        cases stepped
        obtain ⟨live, room⟩ := decision_accepted decision
        exact sound.accept here undecided live room
      next refused =>
        cases stepped
        exact sound.refuse here undecided refused

theorem alone {workers : List ExecutorWorker} {found : ExecutorWorker} (one : workers.length = 1)
    (here : workers[worker]? = some found) : workers = [found] ∧ worker = 0 := by
  obtain ⟨only, rfl⟩ := List.length_eq_one_iff.mp one
  cases worker with
  | zero => simpa using here
  | succ worker => simp at here

theorem Sound.takeTask {task : Nat} {rest : List Nat} (sound : executor.Sound workerCount)
    (here : executor.workers[worker]? = some .idle) (queue : executor.tasks = task :: rest) :
    { executor with
      tasks := rest
      taken := executor.taken ++ [task]
      workers := executor.workers.set worker (.holding task) }.Sound workerCount := by
  have undropped : executor.dropped = [] := by
    by_contra dropped
    have empty := (sound.cancelled dropped).2
    simp [queue] at empty
  constructor
  case workers => simpa using sound.workers
  case capacity =>
    have capacity := sound.capacity
    simp only [queue, List.length_cons] at capacity
    simp only
    omega
  case accepted =>
    have accepted := sound.accepted
    simp [accepted, undropped, queue]
  case started =>
    intro other
    have workers := @total_set _ executor.workers worker _ (.holding task) (ExecutorWorker.holds other) here
    have before := sound.started other
    simp only [ExecutorWorker.holds, Nat.add_zero] at workers
    simp only [List.count_append, List.count_singleton, beq_iff_eq]
    omega
  case finished =>
    intro other
    have workers := @total_set _ executor.workers worker _ (.holding task) (ExecutorWorker.runs other) here
    have before := sound.finished other
    simp only [ExecutorWorker.runs, Nat.add_zero] at workers
    simp only
    omega
  case single =>
    intro one
    obtain ⟨only, first⟩ := alone (sound.workers.trans one) here
    have before := sound.single one
    simp only [only, List.flatMap_singleton, ExecutorWorker.pending, List.append_nil] at before
    simp [only, first, before, ExecutorWorker.pending]
  case exited =>
    intro member
    rcases List.mem_or_eq_of_mem_set member with old | same
    · have exited := (sound.exited old).2
      simp [queue] at exited
    · contradiction
  case cancelled => exact fun dropped => absurd undropped dropped
  case distinct => exact sound.distinct
  case decided => exact sound.decided
  case known => exact sound.known
  case live => exact sound.live

theorem Sound.exit (sound : executor.Sound workerCount) (here : executor.workers[worker]? = some .idle)
    (queue : executor.tasks = []) (stopping : executor.stopping = true) :
    { executor with workers := executor.workers.set worker .exited }.Sound workerCount := by
  constructor
  case workers => simpa using sound.workers
  case started =>
    intro other
    have workers := @total_set _ executor.workers worker _ .exited (ExecutorWorker.holds other) here
    exact Nat.add_right_cancel workers ▸ sound.started other
  case finished =>
    intro other
    have workers := @total_set _ executor.workers worker _ .exited (ExecutorWorker.runs other) here
    exact Nat.add_right_cancel workers ▸ sound.finished other
  case single =>
    intro one
    obtain ⟨only, first⟩ := alone (sound.workers.trans one) here
    have before := sound.single one
    simp only [only, List.flatMap_singleton, ExecutorWorker.pending] at before
    simp [only, first, ← before, ExecutorWorker.pending]
  case exited => exact fun _ => ⟨stopping, queue⟩
  case capacity => exact sound.capacity
  case accepted => exact sound.accepted
  case distinct => exact sound.distinct
  case decided => exact sound.decided
  case known => exact sound.known
  case live => exact sound.live
  case cancelled => exact sound.cancelled

theorem Sound.take (sound : executor.Sound workerCount) (stepped : executor.step (.take worker) = some next) :
    next.Sound workerCount := by
  simp only [BoundedExecutor.step] at stepped
  split at stepped
  next here =>
    simp only [BoundedExecutor.take] at stepped
    split at stepped
    next task rest queue =>
      cases stepped
      exact sound.takeTask here queue
    next queue =>
      split at stepped
      next stopping =>
        cases stepped
        exact sound.exit here queue stopping
      next => contradiction
  next => contradiction

theorem Sound.start (sound : executor.Sound workerCount) (stepped : executor.step (.start worker) = some next) :
    next.Sound workerCount := by
  simp only [BoundedExecutor.step] at stepped
  split at stepped
  next task here =>
    cases stepped
    constructor
    case workers => simpa using sound.workers
    case started =>
      intro other
      have workers := @total_set _ executor.workers worker _ (.running task) (ExecutorWorker.holds other) here
      have before := sound.started other
      simp only [ExecutorWorker.holds, Nat.add_zero] at workers
      simp only [List.count_append, List.count_singleton, beq_iff_eq]
      omega
    case finished =>
      intro other
      have workers := @total_set _ executor.workers worker _ (.running task) (ExecutorWorker.runs other) here
      have before := sound.finished other
      simp only [ExecutorWorker.runs, Nat.add_zero] at workers
      simp only [List.count_append, List.count_singleton, beq_iff_eq]
      omega
    case single =>
      intro one
      obtain ⟨only, first⟩ := alone (sound.workers.trans one) here
      have before := sound.single one
      simp only [only, List.flatMap_singleton, ExecutorWorker.pending] at before
      simp [only, first, ← before, ExecutorWorker.pending]
    case exited =>
      intro member
      rcases List.mem_or_eq_of_mem_set member with old | same
      · exact sound.exited old
      · contradiction
    case capacity => exact sound.capacity
    case accepted => exact sound.accepted
    case distinct => exact sound.distinct
    case decided => exact sound.decided
    case known => exact sound.known
    case live => exact sound.live
    case cancelled => exact sound.cancelled
  next => contradiction

theorem Sound.finish (sound : executor.Sound workerCount) (stepped : executor.step (.finish worker) = some next) :
    next.Sound workerCount := by
  simp only [BoundedExecutor.step] at stepped
  split at stepped
  next task here =>
    cases stepped
    constructor
    case workers => simpa using sound.workers
    case started =>
      intro other
      have workers := @total_set _ executor.workers worker _ .idle (ExecutorWorker.holds other) here
      exact Nat.add_right_cancel workers ▸ sound.started other
    case finished =>
      intro other
      have workers := @total_set _ executor.workers worker _ .idle (ExecutorWorker.runs other) here
      have before := sound.finished other
      simp only [ExecutorWorker.runs, Nat.add_zero] at workers
      simp only [List.count_append, List.count_singleton, beq_iff_eq]
      omega
    case single =>
      intro one
      obtain ⟨only, first⟩ := alone (sound.workers.trans one) here
      have before := sound.single one
      simp only [only, List.flatMap_singleton, ExecutorWorker.pending] at before
      simp [only, first, ← before, ExecutorWorker.pending]
    case exited =>
      intro member
      rcases List.mem_or_eq_of_mem_set member with old | same
      · exact sound.exited old
      · contradiction
    case capacity => exact sound.capacity
    case accepted => exact sound.accepted
    case distinct => exact sound.distinct
    case decided => exact sound.decided
    case known => exact sound.known
    case live => exact sound.live
    case cancelled => exact sound.cancelled
  next => contradiction

theorem Sound.shutdown (sound : executor.Sound workerCount)
    (stepped : executor.step (.requestShutdown cancelPending) = some next) : next.Sound workerCount := by
  simp only [BoundedExecutor.step] at stepped
  split at stepped
  · cases stepped
    exact sound
  next live =>
    have undropped : executor.dropped = [] := sound.live (by simpa using live)
    have running : .exited ∉ executor.workers := fun member => live (sound.exited member).1
    split at stepped
    next =>
      cases stepped
      constructor
      case capacity => simp
      case accepted => simp [sound.accepted, undropped]
      case exited => exact fun member => absurd member running
      case live => simp
      case cancelled => simp
      case workers => exact sound.workers
      case distinct => exact sound.distinct
      case decided => exact sound.decided
      case known => exact sound.known
      case started => exact sound.started
      case finished => exact sound.finished
      case single => exact sound.single
    next =>
      cases stepped
      constructor
      case exited => exact fun member => absurd member running
      case live => simp
      case workers => exact sound.workers
      case capacity => exact sound.capacity
      case accepted => exact sound.accepted
      case distinct => exact sound.distinct
      case decided => exact sound.decided
      case known => exact sound.known
      case started => exact sound.started
      case finished => exact sound.finished
      case single => exact sound.single
      case cancelled => exact sound.cancelled

theorem Sound.step {action : ExecutorAction} (sound : executor.Sound workerCount)
    (stepped : executor.step action = some next) : next.Sound workerCount := by
  cases action with
  | submit kind nested => exact sound.submit stepped
  | pass index cancelled expired waitedOut => exact sound.pass stepped
  | take worker => exact sound.take stepped
  | start worker => exact sound.start stepped
  | finish worker => exact sound.finish stepped
  | requestShutdown cancelPending => exact sound.shutdown stepped

theorem run_sound {actions : List ExecutorAction}
    (ran : runSteps BoundedExecutor.step (initial workerCount queueCapacity) actions = some executor) :
    executor.Sound workerCount :=
  runSteps_keeps Sound.step initial_sound ran

structure RunsAccepted (workerCount : Nat) (executor : BoundedExecutor) : Prop where
  capacity : executor.tasks.length ≤ executor.queueCapacity
  order : executor.taken <+: executor.accepted
  single : workerCount = 1 → executor.started <+: executor.accepted
  once : ∀ task, executor.started.count task ≤ 1
  reported : ∀ index submission, executor.submissions[index]? = some submission →
    (submission.status = some .accepted ↔ index ∈ executor.accepted)
  started : ∀ task ∈ executor.started, task ∈ executor.accepted ∧ task ∉ executor.dropped
  dropped : ∀ task ∈ executor.dropped, task ∈ executor.accepted ∧ executor.cancelling = true
  settled : (∀ worker ∈ executor.workers, worker = .exited) → ∀ task ∈ executor.accepted,
    executor.started.count task = 1 ∧ executor.finished.count task = 1 ∨ task ∈ executor.dropped

theorem bounded_executor_runs_accepted {actions : List ExecutorAction} (manned : 0 < workerCount)
    (ran : runSteps BoundedExecutor.step (initial workerCount queueCapacity) actions = some executor) :
    executor.RunsAccepted workerCount := by
  have sound := run_sound ran
  have accepted := sound.accepted
  have distinct := sound.distinct
  have taken_started (task : Nat) : executor.started.count task ≤ executor.taken.count task := by
    have started := sound.started task
    omega
  have taken_once (task : Nat) : executor.taken.count task + executor.dropped.count task ≤ 1 := by
    have once := List.nodup_iff_count_le_one.mp distinct task
    rw [accepted, List.count_append, List.count_append] at once
    omega
  constructor
  case capacity => exact sound.capacity
  case order => exact ⟨executor.dropped ++ executor.tasks, by rw [accepted, List.append_assoc]⟩
  case single =>
    intro one
    have single := sound.single one
    exact ⟨executor.workers.flatMap ExecutorWorker.pending ++ executor.dropped ++ executor.tasks, by
      rw [accepted, ← single]
      simp⟩
  case once =>
    intro task
    have fewer := taken_started task
    have once := taken_once task
    omega
  case reported => exact sound.decided
  case started =>
    intro task member
    have positive := List.count_pos_iff.mpr member
    have fewer := taken_started task
    have once := taken_once task
    have taken : task ∈ executor.taken := List.count_pos_iff.mp (by omega)
    refine ⟨by simp [accepted, taken], ?_⟩
    exact List.count_eq_zero.mp (by omega)
  case dropped =>
    intro task member
    exact ⟨by simp [accepted, member], (sound.cancelled (List.ne_nil_of_mem member)).1⟩
  case settled =>
    intro exited task member
    obtain ⟨worker, last⟩ : ∃ worker, worker ∈ executor.workers :=
      List.exists_mem_of_length_pos (sound.workers ▸ manned)
    have queue := (sound.exited (exited worker last ▸ last)).2
    have holding : total (ExecutorWorker.holds task) executor.workers = 0 :=
      total_eq_zero_iff.mpr fun worker member => by rw [exited worker member]; rfl
    have running : total (ExecutorWorker.runs task) executor.workers = 0 :=
      total_eq_zero_iff.mpr fun worker member => by rw [exited worker member]; rfl
    have started := sound.started task
    have finished := sound.finished task
    have once := taken_once task
    rw [accepted, queue, List.append_nil, List.mem_append] at member
    rcases member with taken | dropped
    · have positive := List.count_pos_iff.mpr taken
      exact .inl ⟨by omega, by omega⟩
    · exact .inr dropped

def twoWorkers : List ExecutorAction :=
  [.submit .trySubmit false, .pass 0 false false false, .submit .submitUntil false, .pass 1 false false false, .take 0,
    .pass 1 false false false, .take 1, .start 1, .start 0, .submit .trySubmit false, .pass 2 false false false,
    .requestShutdown true, .finish 0, .take 0, .finish 1, .take 1]

theorem bounded_executor_runs_accepted_two_workers : 0 < 2 ∧
    ∃ executor, runSteps BoundedExecutor.step (initial 2 1) twoWorkers = some executor ∧ executor.RunsAccepted 2 :=
  ⟨by decide, _, rfl, @bounded_executor_runs_accepted _ 2 1 twoWorkers (by decide) rfl⟩

theorem bounded_executor_out_of_order :
    ∃ executor, runSteps BoundedExecutor.step (initial 2 1) twoWorkers = some executor ∧
      executor.accepted = [0, 1, 2] ∧ executor.started = [1, 0] ∧ executor.dropped = [2] :=
  ⟨_, rfl, rfl, rfl, rfl⟩

end BoundedExecutor

end SubConverter.Utils
