import SubConverter.Lib.Interleaving
import SubConverter.Utils.CpuPermits

set_option autoImplicit false

namespace SubConverter.Utils

inductive RequestCostClass where
  | unclassified
  | low
  | medium
  | high
  | count
deriving DecidableEq, Repr

/-- Times are ticks of the steady clock, and no deadline stands for `time_point::max()`. -/
structure SchedulerTask where
  id : Nat
  cost : RequestCostClass
  bytes : Nat
  enqueuedAt : Nat
  deadline : Option Nat
deriving DecidableEq, Repr

-- `submit` and `submitAsync` differ only in how a task reports its end.
structure SchedulerSubmission where
  task : SchedulerTask
  status : Option SchedulerSubmitStatus
deriving DecidableEq, Repr

inductive SchedulerWorker where
  | waiting
  | taken (task : SchedulerTask)
  | running (task : Nat)
  | cancelling
  | uncounted
  | exited
deriving DecidableEq, Repr

inductive DrainStage where
  | idle
  | draining
  | dropping (task : Nat)
  | done
deriving DecidableEq, Repr

structure WorkloadScheduler where
  maxEntries : Nat
  maxBytes : Nat
  queues : Fin 3 → List SchedulerTask := fun _ => []
  credits : Fin 3 → Nat := ![8, 4, 1]
  nextQueue : Nat := 0
  queuedEntries : Nat := 0
  queuedBytes : Nat := 0
  active : Nat := 0
  accepted : Nat := 0
  rejected : Nat := 0
  cancelled : Nat := 0
  stopping : Bool := false
  submissions : List SchedulerSubmission := []
  workers : List SchedulerWorker
  drain : DrainStage := .idle
  -- What has happened: accepted tasks in order, those run, those run to their end, and those cancelled.
  admitted : List Nat := []
  started : List Nat := []
  finished : List Nat := []
  cancels : List (Nat × SchedulerSubmitStatus) := []

inductive SchedulerAction where
  | submit (cost : RequestCostClass) (bytes : Nat) (deadline : Option Nat) (now : Nat)
  | answer (index : Nat) (cancelled : Bool)
  | take (worker : Nat) (now : Nat)
  | check (worker : Nat) (cancelled : Bool) (now : Nat)
  | finish (worker : Nat)
  | countCancelled (worker : Nat)
  | leave (worker : Nat)
  | requestShutdown (cancelPending : Bool)
  | drain
deriving DecidableEq, Repr

namespace WorkloadScheduler

def kWeights : Fin 3 → Nat := ![8, 4, 1]

def initial (workerCount maxEntries maxBytes : Nat) : WorkloadScheduler :=
  { maxEntries := if maxEntries = 0 then 1 else maxEntries
    maxBytes := if maxBytes = 0 then 1 else maxBytes
    credits := kWeights
    workers := List.replicate workerCount .waiting }

def normalizedCost : RequestCostClass → RequestCostClass
  | .low => .low
  | .medium => .medium
  | .high => .high
  | .unclassified | .count => .medium

-- One proof for every index of a queue.
instance : NeZero 3 := inferInstance

def queueIndex : RequestCostClass → Fin 3
  | .low => 0
  | .medium => 1
  | .high => 2
  | .unclassified | .count => 1

def expired (deadline : Option Nat) (now : Nat) : Bool := deadline.any fun deadline => deadline ≤ now

variable (scheduler : WorkloadScheduler)

/-- The critical section of `submit` and of `submitAsync`. -/
def decision (task : SchedulerTask) (cancelled : Bool) : SchedulerSubmitStatus :=
  if scheduler.stopping then .stopping
  else if cancelled then .cancelled
  else if expired task.deadline task.enqueuedAt then .deadline
  else if scheduler.maxEntries ≤ scheduler.queuedEntries then .entryLimit
  else if scheduler.maxBytes < task.bytes ∨ scheduler.maxBytes - task.bytes < scheduler.queuedBytes then .byteLimit
  else .accepted

def enqueue (task : SchedulerTask) : WorkloadScheduler := { scheduler with
  queues := Function.update scheduler.queues (queueIndex task.cost) (scheduler.queues (queueIndex task.cost) ++ [task])
  queuedEntries := add64 scheduler.queuedEntries 1
  queuedBytes := add64 scheduler.queuedBytes task.bytes
  accepted := scheduler.accepted + 1
  admitted := scheduler.admitted ++ [task.id] }

def answer (index : Nat) (submission : SchedulerSubmission) (cancelled : Bool) : WorkloadScheduler :=
  let status := scheduler.decision submission.task cancelled
  let decided := { scheduler with submissions := scheduler.submissions.set index { submission with status := some status } }
  if status = .accepted then decided.enqueue submission.task else { decided with rejected := scheduler.rejected + 1 }

def popLocked (index : Fin 3) : Option SchedulerTask × WorkloadScheduler :=
  match scheduler.queues index with
  | [] => (none, scheduler)
  | task :: rest =>
    (some task, { scheduler with
      queues := Function.update scheduler.queues index rest
      queuedEntries := sub64 scheduler.queuedEntries 1
      queuedBytes := sub64 scheduler.queuedBytes task.bytes
      active := scheduler.active + 1 })

def oldestFront : Option (Fin 3 × Nat) :=
  [(0 : Fin 3), 1, 2].foldl (fun oldest index =>
    match scheduler.queues index with
    | [] => oldest
    | task :: _ => if oldest.all fun oldest => task.enqueuedAt < oldest.2 then some (index, task.enqueuedAt) else oldest) none

def activeHasCredit : Bool := [(0 : Fin 3), 1, 2].any fun index => scheduler.queues index ≠ [] && scheduler.credits index ≠ 0

def refill : WorkloadScheduler :=
  if scheduler.activeHasCredit then scheduler
  else { scheduler with credits := fun index => if scheduler.queues index = [] then 0 else kWeights index }

def nextIndex : Fin 3 := ⟨scheduler.nextQueue % 3, Nat.mod_lt _ (by decide)⟩

def attempt : Nat → WorkloadScheduler → Option SchedulerTask × WorkloadScheduler
  | 0, scheduler => (none, scheduler)
  | attempts + 1, scheduler =>
    let index := scheduler.nextIndex
    let passed := { scheduler with nextQueue := add64 scheduler.nextQueue 1 }
    if scheduler.credits index = 0 ∨ scheduler.queues index = [] then attempt attempts passed
    else { passed with credits := Function.update scheduler.credits index (scheduler.credits index - 1) }.popLocked index

-- A front that has waited for half a second goes first; times are in nanoseconds.
def takeTaskLocked (now : Nat) : Option SchedulerTask × WorkloadScheduler :=
  let rounds (oldest : Option (Fin 3 × Nat)) :=
    match attempt 6 scheduler.refill, oldest with
    | (none, tried), some (index, _) => tried.popLocked index
    | tried, _ => tried
  match scheduler.oldestFront with
  | some (index, oldest) =>
    if oldest + 500000000 ≤ now then scheduler.popLocked index else rounds (some (index, oldest))
  | none => rounds none

/-- A pass of `workerLoop` through the lock; nothing while there is nothing to wake up for. -/
def take (worker : Nat) (now : Nat) : Option WorkloadScheduler :=
  if !scheduler.stopping && scheduler.queuedEntries = 0 then none
  else if scheduler.stopping && scheduler.queuedEntries = 0 then
    some { scheduler with workers := scheduler.workers.set worker .exited }
  else
    match scheduler.takeTaskLocked now with
    | (some task, later) => some { later with workers := later.workers.set worker (.taken task) }
    | (none, later) => some later

def check (worker : Nat) (task : SchedulerTask) (cancelled : Bool) (now : Nat) : WorkloadScheduler :=
  let cancel (status : SchedulerSubmitStatus) := { scheduler with
    workers := scheduler.workers.set worker .cancelling
    cancels := scheduler.cancels ++ [(task.id, status)] }
  if cancelled then cancel .cancelled
  else if expired task.deadline now then cancel .deadline
  else { scheduler with
    workers := scheduler.workers.set worker (.running task.id), started := scheduler.started ++ [task.id] }

def requestShutdown (cancelPending : Bool) : WorkloadScheduler :=
  if scheduler.stopping then scheduler
  else if cancelPending then { scheduler with
    stopping := true
    cancelled := scheduler.cancelled + scheduler.queuedEntries
    queuedEntries := 0
    queuedBytes := 0
    drain := .draining }
  else { scheduler with stopping := true }

def firstQueued : Option (Fin 3 × SchedulerTask × List SchedulerTask) :=
  [(0 : Fin 3), 1, 2].findSome? fun index =>
    match scheduler.queues index with
    | [] => none
    | task :: rest => some (index, task, rest)

def drainNext : WorkloadScheduler :=
  match scheduler.firstQueued with
  | none => { scheduler with drain := .done }
  | some (index, task, rest) =>
    { scheduler with queues := Function.update scheduler.queues index rest, drain := .dropping task.id }

def step : SchedulerAction → Option WorkloadScheduler
  | .submit cost bytes deadline now =>
    let task : SchedulerTask := ⟨scheduler.submissions.length, normalizedCost cost, bytes, now, deadline⟩
    some { scheduler with submissions := scheduler.submissions ++ [⟨task, none⟩] }
  | .answer index cancelled =>
    scheduler.submissions[index]?.bind fun submission =>
      if submission.status = none then some (scheduler.answer index submission cancelled) else none
  | .take worker now => if scheduler.workers[worker]? = some .waiting then scheduler.take worker now else none
  | .check worker cancelled now =>
    match scheduler.workers[worker]? with
    | some (.taken task) => some (scheduler.check worker task cancelled now)
    | _ => none
  | .finish worker =>
    match scheduler.workers[worker]? with
    | some (.running task) =>
      some { scheduler with
        workers := scheduler.workers.set worker .waiting
        active := scheduler.active - 1
        finished := scheduler.finished ++ [task] }
    | _ => none
  | .countCancelled worker =>
    if scheduler.workers[worker]? = some .cancelling then
      some { scheduler with workers := scheduler.workers.set worker .uncounted, cancelled := scheduler.cancelled + 1 }
    else none
  | .leave worker =>
    if scheduler.workers[worker]? = some .uncounted then
      some { scheduler with workers := scheduler.workers.set worker .waiting, active := scheduler.active - 1 }
    else none
  | .requestShutdown cancelPending => some (scheduler.requestShutdown cancelPending)
  | .drain =>
    match scheduler.drain with
    | .draining => some scheduler.drainNext
    | .dropping task =>
      some { scheduler with drain := .draining, cancels := scheduler.cancels ++ [(task, .stopping)] }
    | .idle | .done => none

end WorkloadScheduler

namespace WorkloadScheduler

section Queues

variable {queues : Fin 3 → List SchedulerTask} {task : SchedulerTask} {rest : List SchedulerTask} {scheduler later : WorkloadScheduler}
  {taken : Option SchedulerTask} {index : Fin 3} {now : Nat}

def tasksOf (queues : Fin 3 → List SchedulerTask) : List SchedulerTask := queues 0 ++ queues 1 ++ queues 2

def tasks (scheduler : WorkloadScheduler) : List SchedulerTask := tasksOf scheduler.queues

theorem pushed_perm : (tasksOf (Function.update queues index (queues index ++ [task]))).Perm (task :: tasksOf queues) := by
  rw [List.perm_iff_count]
  intro other
  fin_cases index <;> simp [tasksOf, Function.update, List.count_cons] <;> omega

theorem popped_perm (front : queues index = task :: rest) :
    (tasksOf queues).Perm (task :: tasksOf (Function.update queues index rest)) := by
  rw [List.perm_iff_count]
  intro other
  fin_cases index <;> simp at front <;> simp [tasksOf, Function.update, front, List.count_cons] <;> omega

inductive Taken (scheduler : WorkloadScheduler) : Option SchedulerTask → WorkloadScheduler → Prop
  | one {task : SchedulerTask} {rest : List SchedulerTask} (index : Fin 3) (credits : Fin 3 → Nat) (nextQueue : Nat)
      (front : scheduler.queues index = task :: rest) :
      Taken scheduler (some task) { scheduler with
        queues := Function.update scheduler.queues index rest
        credits := credits
        nextQueue := nextQueue
        queuedEntries := sub64 scheduler.queuedEntries 1
        queuedBytes := sub64 scheduler.queuedBytes task.bytes
        active := scheduler.active + 1 }
  | nothing (credits : Fin 3 → Nat) (nextQueue : Nat) (empty : scheduler.tasks = []) :
      Taken scheduler none { scheduler with credits := credits, nextQueue := nextQueue }

def turned (scheduler : WorkloadScheduler) (credits : Fin 3 → Nat) (nextQueue : Nat) : WorkloadScheduler :=
  { scheduler with credits := credits, nextQueue := nextQueue }

theorem popLocked_taken (credits : Fin 3 → Nat) (nextQueue : Nat) (front : scheduler.queues index = task :: rest) :
    ∃ later, (scheduler.turned credits nextQueue).popLocked index = (some task, later) ∧ Taken scheduler (some task) later := by
  have same : (scheduler.turned credits nextQueue).queues index = task :: rest := front
  simp only [popLocked, same]
  exact ⟨_, rfl, .one index credits nextQueue front⟩

theorem attempt_taken (attempts : Nat) (credits : Fin 3 → Nat) (nextQueue : Nat) :
    (∃ nextQueue', attempt attempts (scheduler.turned credits nextQueue) = (none, scheduler.turned credits nextQueue')) ∨
      ∃ task later, attempt attempts (scheduler.turned credits nextQueue) = (some task, later) ∧
        Taken scheduler (some task) later := by
  induction attempts generalizing nextQueue with
  | zero => exact .inl ⟨nextQueue, rfl⟩
  | succ attempts ih =>
    simp only [attempt]
    split
    next => exact ih (add64 nextQueue 1)
    next present =>
      obtain ⟨-, filled⟩ := not_or.mp present
      obtain ⟨task, rest, found⟩ := List.exists_cons_of_ne_nil filled
      have front : scheduler.queues (scheduler.turned credits nextQueue).nextIndex = task :: rest := found
      exact .inr ⟨task, popLocked_taken _ _ front⟩

theorem oldestFront_some {oldest : Nat} (found : scheduler.oldestFront = some (index, oldest)) :
    ∃ task rest, scheduler.queues index = task :: rest := by
  apply List.exists_cons_of_ne_nil
  rintro empty
  unfold oldestFront at found
  cases zero : scheduler.queues 0 <;> cases one : scheduler.queues 1 <;> cases two : scheduler.queues 2 <;>
    simp only [List.foldl_cons, List.foldl_nil, zero, one, two, Option.all_none, if_true] at found <;> grind

theorem oldestFront_none (missing : scheduler.oldestFront = none) : scheduler.tasks = [] := by
  unfold oldestFront at missing
  cases zero : scheduler.queues 0 <;> cases one : scheduler.queues 1 <;> cases two : scheduler.queues 2 <;>
    simp only [List.foldl_cons, List.foldl_nil, zero, one, two, Option.all_none, if_true] at missing <;>
    simp [tasks, tasksOf, zero, one, two] <;> grind

theorem refill_turned (scheduler : WorkloadScheduler) :
    ∃ credits, scheduler.refill = scheduler.turned credits scheduler.nextQueue := by
  unfold refill
  split
  · exact ⟨scheduler.credits, rfl⟩
  · exact ⟨_, rfl⟩

theorem takeTaskLocked_taken (now : Nat) :
    Taken scheduler (scheduler.takeTaskLocked now).1 (scheduler.takeTaskLocked now).2 := by
  obtain ⟨credits, refilled⟩ := refill_turned scheduler
  have tried := @attempt_taken scheduler 6 credits scheduler.nextQueue
  rw [← refilled] at tried
  cases found : scheduler.oldestFront with
  | none =>
    have empty := oldestFront_none found
    rcases tried with ⟨nextQueue, nothing⟩ | ⟨task, later, one, taken⟩
    · simp only [takeTaskLocked, found, nothing]
      exact .nothing credits nextQueue empty
    · simp only [takeTaskLocked, found, one]
      exact taken
  | some oldest =>
    obtain ⟨task, rest, front⟩ := oldestFront_some found
    simp only [takeTaskLocked, found]
    split
    · obtain ⟨later, popped, taken⟩ := popLocked_taken scheduler.credits scheduler.nextQueue front
      rw [show scheduler.popLocked oldest.1 = (some task, later) from popped]
      exact taken
    · rcases tried with ⟨nextQueue, nothing⟩ | ⟨task', later, one, taken⟩
      · obtain ⟨later, popped, taken⟩ := popLocked_taken credits nextQueue front
        simp only [nothing, popped]
        exact taken
      · simp only [one]
        exact taken

end Queues

end WorkloadScheduler

end SubConverter.Utils
