import SubConverter.Utils.WorkloadScheduler

set_option autoImplicit false

namespace SubConverter.Utils

namespace SchedulerWorker

def holds (task : Nat) : SchedulerWorker → Nat
  | .taken held => if held.id = task then 1 else 0
  | _ => 0

def runs (task : Nat) : SchedulerWorker → Nat
  | .running run => if run = task then 1 else 0
  | _ => 0

def busy : SchedulerWorker → Nat
  | .waiting | .exited => 0
  | .taken _ | .running _ | .cancelling | .uncounted => 1

def late : SchedulerWorker → Nat
  | .uncounted => 1
  | _ => 0

end SchedulerWorker

def DrainStage.holds (task : Nat) : DrainStage → Nat
  | .dropping held => if held = task then 1 else 0
  | _ => 0

def SchedulerSubmission.refused (submission : SchedulerSubmission) : Nat :=
  if submission.status.all fun status => status = .accepted then 0 else 1

namespace WorkloadScheduler

def bytesOf (tasks : List SchedulerTask) : Nat := total SchedulerTask.bytes tasks

def countOf (task : Nat) (tasks : List SchedulerTask) : Nat := total (fun queued => if queued.id = task then 1 else 0) tasks

def cancelsOf (task : Nat) (cancels : List (Nat × SchedulerSubmitStatus)) : Nat :=
  total (fun cancel => if cancel.1 = task then 1 else 0) cancels

structure Sound (workerCount : Nat) (scheduler : WorkloadScheduler) : Prop where
  workers : scheduler.workers.length = workerCount
  fits : scheduler.maxEntries < 2 ^ 64 ∧ scheduler.maxBytes < 2 ^ 64
  entryLimit : scheduler.tasks.length ≤ scheduler.maxEntries
  byteLimit : bytesOf scheduler.tasks ≤ scheduler.maxBytes
  queued : scheduler.drain = .idle →
    scheduler.queuedEntries = scheduler.tasks.length ∧ scheduler.queuedBytes = bytesOf scheduler.tasks
  drained : scheduler.drain ≠ .idle →
    scheduler.queuedEntries = 0 ∧ scheduler.queuedBytes = 0 ∧ scheduler.stopping = true
  done : scheduler.drain = .done → scheduler.tasks = []
  active : scheduler.active = total SchedulerWorker.busy scheduler.workers
  balance : scheduler.accepted + total SchedulerWorker.late scheduler.workers =
    scheduler.queuedEntries + scheduler.active + scheduler.finished.length + scheduler.cancelled
  accepted : scheduler.accepted = scheduler.admitted.length
  rejected : scheduler.rejected = total SchedulerSubmission.refused scheduler.submissions
  distinct : scheduler.admitted.Nodup
  decided : ∀ (index : Nat) (submission : SchedulerSubmission), scheduler.submissions[index]? = some submission →
    submission.task.id = index ∧ (submission.status = some .accepted ↔ index ∈ scheduler.admitted)
  known : ∀ task ∈ scheduler.admitted, task < scheduler.submissions.length
  placed : ∀ task, countOf task scheduler.tasks + total (SchedulerWorker.holds task) scheduler.workers +
    scheduler.drain.holds task + scheduler.started.count task + cancelsOf task scheduler.cancels =
      scheduler.admitted.count task
  ended : ∀ task, scheduler.finished.count task + total (SchedulerWorker.runs task) scheduler.workers =
    scheduler.started.count task
  exited : .exited ∈ scheduler.workers → scheduler.stopping = true ∧ scheduler.queuedEntries = 0
  reasons : ∀ cancel ∈ scheduler.cancels,
    cancel.2 = .stopping ∧ scheduler.drain ≠ .idle ∨ cancel.2 = .cancelled ∨ cancel.2 = .deadline

variable {scheduler next : WorkloadScheduler} {workerCount maxEntries maxBytes index worker bytes now task : Nat}
  {cost : RequestCostClass} {deadline : Option Nat} {cancelled cancelPending : Bool} {submission : SchedulerSubmission}

theorem initial_sound (fits : maxEntries < 2 ^ 64 ∧ maxBytes < 2 ^ 64) :
    (initial workerCount maxEntries maxBytes).Sound workerCount := by
  constructor
  case fits =>
    simp only [initial]
    constructor <;> split <;> omega
  case active => exact (total_eq_zero_iff.mpr (by simp [initial, SchedulerWorker.busy])).symm
  case balance => simp [initial, total_eq_zero_iff, SchedulerWorker.late]
  case placed => simp [initial, tasks, tasksOf, countOf, cancelsOf, DrainStage.holds, total_eq_zero_iff, SchedulerWorker.holds]
  case ended => simp [initial, total_eq_zero_iff, SchedulerWorker.runs]
  all_goals simp [initial, tasks, tasksOf, bytesOf]

theorem Sound.submit (sound : scheduler.Sound workerCount)
    (stepped : scheduler.step (.submit cost bytes deadline now) = some next) : next.Sound workerCount := by
  cases stepped
  constructor
  case rejected => simpa [SchedulerSubmission.refused] using sound.rejected
  case decided =>
    apply forall_lookup_concat
    next =>
      simp only [reduceCtorEq, false_iff, true_and]
      exact fun member => Nat.lt_irrefl _ (sound.known _ member)
    next => exact sound.decided
  case known =>
    intro task member
    have inside := sound.known task member
    simp only [List.length_append, List.length_singleton]
    omega
  case workers => exact sound.workers
  case fits => exact sound.fits
  case entryLimit => exact sound.entryLimit
  case byteLimit => exact sound.byteLimit
  case queued => exact sound.queued
  case drained => exact sound.drained
  case done => exact sound.done
  case active => exact sound.active
  case balance => exact sound.balance
  case accepted => exact sound.accepted
  case distinct => exact sound.distinct
  case placed => exact sound.placed
  case ended => exact sound.ended
  case exited => exact sound.exited
  case reasons => exact sound.reasons

theorem Sound.move (sound : scheduler.Sound workerCount) {before after : SchedulerWorker} {active cancelled : Nat}
    {started finished : List Nat} {cancels : List (Nat × SchedulerSubmitStatus)}
    (here : scheduler.workers[worker]? = some before) (stays : after ≠ .exited)
    (counted : active + before.busy = scheduler.active + after.busy)
    (balanced : active + finished.length + cancelled + before.late =
      scheduler.active + scheduler.finished.length + scheduler.cancelled + after.late)
    (placed : ∀ task, after.holds task + started.count task + cancelsOf task cancels =
      before.holds task + scheduler.started.count task + cancelsOf task scheduler.cancels)
    (ended : ∀ task, finished.count task + after.runs task + scheduler.started.count task =
      scheduler.finished.count task + before.runs task + started.count task)
    (reasons : ∀ cancel ∈ cancels, cancel ∈ scheduler.cancels ∨ cancel.2 = .cancelled ∨ cancel.2 = .deadline) :
    { scheduler with
      workers := scheduler.workers.set worker after, active := active, cancelled := cancelled, started := started,
      finished := finished, cancels := cancels }.Sound workerCount := by
  constructor
  case workers => simpa using sound.workers
  case active =>
    have moved := @total_set _ _ _ _ after SchedulerWorker.busy here
    have same := sound.active
    dsimp only
    omega
  case balance =>
    have moved := @total_set _ _ _ _ after SchedulerWorker.late here
    have same := sound.balance
    dsimp only
    omega
  case placed =>
    intro task
    have moved := @total_set _ _ _ _ after (SchedulerWorker.holds task) here
    have same := sound.placed task
    have new := placed task
    dsimp only [tasks] at same ⊢
    omega
  case ended =>
    intro task
    have moved := @total_set _ _ _ _ after (SchedulerWorker.runs task) here
    have same := sound.ended task
    have new := ended task
    dsimp only
    omega
  case exited =>
    intro member
    rcases List.mem_or_eq_of_mem_set member with old | new
    · exact sound.exited old
    · exact absurd new.symm stays
  case reasons =>
    intro cancel member
    rcases reasons cancel member with old | new
    · exact sound.reasons cancel old
    · exact .inr new
  case fits => exact sound.fits
  case entryLimit => exact sound.entryLimit
  case byteLimit => exact sound.byteLimit
  case queued => exact sound.queued
  case drained => exact sound.drained
  case done => exact sound.done
  case accepted => exact sound.accepted
  case rejected => exact sound.rejected
  case distinct => exact sound.distinct
  case decided => exact sound.decided
  case known => exact sound.known

theorem cancelsOf_concat {cancels : List (Nat × SchedulerSubmitStatus)} {held : Nat} {status : SchedulerSubmitStatus} :
    cancelsOf task (cancels ++ [(held, status)]) = cancelsOf task cancels + if held = task then 1 else 0 := by
  simp [cancelsOf]

theorem count_concat {tasks : List Nat} {held : Nat} :
    (tasks ++ [held]).count task = tasks.count task + if held = task then 1 else 0 := by
  simp [List.count_append, List.count_singleton]

theorem Sound.check (sound : scheduler.Sound workerCount) (stepped : scheduler.step (.check worker cancelled now) = some next) :
    next.Sound workerCount := by
  simp only [step] at stepped
  split at stepped
  next held here =>
    have cancel (status : SchedulerSubmitStatus) (reason : status = .cancelled ∨ status = .deadline) :
        { scheduler with
          workers := scheduler.workers.set worker .cancelling
          cancels := scheduler.cancels ++ [(held.id, status)] }.Sound workerCount := by
      apply sound.move here
      case stays => simp
      case counted => rfl
      case balanced => rfl
      case placed =>
        intro task
        simp only [cancelsOf_concat, SchedulerWorker.holds]
        omega
      case ended => exact fun task => rfl
      case reasons =>
        intro cancel member
        rcases List.mem_append.mp member with old | new
        · exact .inl old
        · exact .inr (List.mem_singleton.mp new ▸ reason)
    cases stepped
    unfold WorkloadScheduler.check
    split
    next => exact cancel .cancelled (.inl rfl)
    next =>
      split
      next => exact cancel .deadline (.inr rfl)
      next =>
        apply sound.move here
        case stays => simp
        case counted => rfl
        case balanced => rfl
        case placed =>
          intro task
          simp only [count_concat, SchedulerWorker.holds]
          omega
        case ended =>
          intro task
          simp only [count_concat, SchedulerWorker.runs]
          omega
        case reasons => exact fun cancel member => .inl member
  next => contradiction

theorem Sound.busy_active (sound : scheduler.Sound workerCount) {before : SchedulerWorker}
    (here : scheduler.workers[worker]? = some before) : before.busy ≤ scheduler.active := by
  rw [sound.active]
  exact le_total here

theorem Sound.finish (sound : scheduler.Sound workerCount) (stepped : scheduler.step (.finish worker) = some next) :
    next.Sound workerCount := by
  simp only [step] at stepped
  split at stepped
  next held here =>
    have busy : 1 ≤ scheduler.active := sound.busy_active here
    cases stepped
    apply sound.move here
    case stays => simp
    case counted =>
      simp only [SchedulerWorker.busy]
      omega
    case balanced =>
      simp only [SchedulerWorker.late, List.length_append, List.length_singleton]
      omega
    case placed => exact fun task => rfl
    case ended =>
      intro task
      simp only [count_concat, SchedulerWorker.runs]
      omega
    case reasons => exact fun cancel member => .inl member
  next => contradiction

theorem Sound.countCancelled (sound : scheduler.Sound workerCount)
    (stepped : scheduler.step (.countCancelled worker) = some next) : next.Sound workerCount := by
  simp only [step] at stepped
  split at stepped
  next here =>
    cases stepped
    apply sound.move here
    case stays => simp
    case counted => rfl
    case balanced => rfl
    case placed => exact fun task => rfl
    case ended => exact fun task => rfl
    case reasons => exact fun cancel member => .inl member
  next => contradiction

theorem Sound.leave (sound : scheduler.Sound workerCount) (stepped : scheduler.step (.leave worker) = some next) :
    next.Sound workerCount := by
  simp only [step] at stepped
  split at stepped
  next here =>
    have busy : 1 ≤ scheduler.active := sound.busy_active here
    cases stepped
    apply sound.move here
    case stays => simp
    case counted =>
      simp only [SchedulerWorker.busy]
      omega
    case balanced =>
      simp only [SchedulerWorker.late]
      omega
    case placed => exact fun task => rfl
    case ended => exact fun task => rfl
    case reasons => exact fun cancel member => .inl member
  next => contradiction

theorem decision_accepted {task : SchedulerTask} (accepts : scheduler.decision task cancelled = .accepted) :
    scheduler.stopping = false ∧ scheduler.queuedEntries < scheduler.maxEntries ∧
      scheduler.queuedBytes + task.bytes ≤ scheduler.maxBytes := by
  unfold decision at accepts
  split_ifs at accepts with stopping gone late full large
  refine ⟨by simpa using stopping, by omega, by omega⟩

theorem Sound.accept (sound : scheduler.Sound workerCount) (here : scheduler.submissions[index]? = some submission)
    (undecided : submission.status = none) (accepts : scheduler.decision submission.task cancelled = .accepted) :
    (enqueue { scheduler with
      submissions := scheduler.submissions.set index { submission with status := some .accepted } } submission.task).Sound
        workerCount := by
  obtain ⟨live, room, fitting⟩ := decision_accepted accepts
  obtain ⟨id, absent⟩ := sound.decided index submission here
  rw [undecided] at absent
  have fresh : index ∉ scheduler.admitted := by simpa using absent
  have undrained : scheduler.drain = .idle := by
    by_contra drained
    exact absurd (sound.drained drained).2.2 (by simp [live])
  obtain ⟨entries, bytes⟩ := sound.queued undrained
  obtain ⟨entriesFit, bytesFit⟩ := sound.fits
  have pushed := @pushed_perm scheduler.queues submission.task (queueIndex submission.task.cost)
  have length : _ = scheduler.tasks.length + 1 := pushed.length_eq
  have sum : bytesOf _ = submission.task.bytes + bytesOf scheduler.tasks := (total_perm pushed).trans total_cons
  have grownEntries : add64 scheduler.queuedEntries 1 = scheduler.queuedEntries + 1 := add64_eq (by omega)
  have grownBytes : add64 scheduler.queuedBytes submission.task.bytes = scheduler.queuedBytes + submission.task.bytes :=
    add64_eq (by omega)
  constructor
  case entryLimit =>
    have within : scheduler.tasks.length + 1 ≤ scheduler.maxEntries := by omega
    exact length.le.trans within
  case byteLimit =>
    have within : submission.task.bytes + bytesOf scheduler.tasks ≤ scheduler.maxBytes := by omega
    exact sum.le.trans within
  case queued =>
    intro idle
    constructor
    · exact grownEntries.trans ((congrArg (· + 1) entries).trans length.symm)
    · exact grownBytes.trans ((Nat.add_comm _ _).trans ((congrArg (submission.task.bytes + ·) bytes).trans sum.symm))
  case drained => exact fun drained => absurd undrained drained
  case done => exact fun done => absurd undrained (by simp [show scheduler.drain = .done from done])
  case balance =>
    have same := sound.balance
    dsimp only [enqueue]
    omega
  case accepted => simp [enqueue, sound.accepted]
  case rejected =>
    have moved := @total_set _ _ _ _ { submission with status := some .accepted } SchedulerSubmission.refused here
    have same := sound.rejected
    simp only [SchedulerSubmission.refused, undecided] at moved
    dsimp only [enqueue]
    simp at moved
    omega
  case distinct =>
    apply List.Nodup.append sound.distinct (List.nodup_singleton _)
    simpa [id] using fresh
  case decided =>
    refine forall_lookup_set here ?_ ?_
    next => simp [enqueue, id]
    next =>
      intro other found apart present
      simpa [enqueue, id, apart] using sound.decided other found present
  case known =>
    intro other member
    simp only [enqueue, List.length_set]
    rcases List.mem_append.mp member with old | last
    · exact sound.known other old
    · rw [List.mem_singleton.mp last, id]
      exact (List.getElem?_eq_some_iff.mp here).1
  case placed =>
    intro task
    have same := sound.placed task
    have moved : countOf task _ = (if submission.task.id = task then 1 else 0) + countOf task scheduler.tasks :=
      (total_perm pushed).trans total_cons
    dsimp only [enqueue, tasks] at moved same ⊢
    rw [count_concat, moved]
    omega
  case exited =>
    intro member
    have exited := sound.exited member
    simp [live] at exited
  case workers => exact sound.workers
  case fits => exact sound.fits
  case active => exact sound.active
  case ended => exact sound.ended
  case reasons => exact sound.reasons

theorem Sound.refuse (sound : scheduler.Sound workerCount) {status : SchedulerSubmitStatus}
    (here : scheduler.submissions[index]? = some submission) (undecided : submission.status = none)
    (refused : status ≠ .accepted) :
    { scheduler with
      submissions := scheduler.submissions.set index { submission with status := some status }
      rejected := scheduler.rejected + 1 }.Sound workerCount := by
  constructor
  case rejected =>
    have moved := @total_set _ _ _ _ { submission with status := some status } SchedulerSubmission.refused here
    have same := sound.rejected
    simp [SchedulerSubmission.refused, undecided, refused] at moved
    dsimp only
    omega
  case decided =>
    refine forall_lookup_set here ?_ ?_
    next =>
      have before := sound.decided index submission here
      simpa [undecided, refused] using before
    next => exact fun other found _ present => sound.decided other found present
  case known =>
    intro other member
    simpa using sound.known other member
  case workers => exact sound.workers
  case fits => exact sound.fits
  case entryLimit => exact sound.entryLimit
  case byteLimit => exact sound.byteLimit
  case queued => exact sound.queued
  case drained => exact sound.drained
  case done => exact sound.done
  case active => exact sound.active
  case balance => exact sound.balance
  case accepted => exact sound.accepted
  case distinct => exact sound.distinct
  case placed => exact sound.placed
  case ended => exact sound.ended
  case exited => exact sound.exited
  case reasons => exact sound.reasons

theorem Sound.answer (sound : scheduler.Sound workerCount) (stepped : scheduler.step (.answer index cancelled) = some next) :
    next.Sound workerCount := by
  obtain ⟨submission, here, stepped⟩ := Option.bind_eq_some_iff.mp stepped
  split at stepped
  next undecided =>
    cases stepped
    by_cases accepts : scheduler.decision submission.task cancelled = .accepted
    · simp only [WorkloadScheduler.answer, accepts, if_true]
      exact sound.accept here undecided accepts
    · simp only [WorkloadScheduler.answer, accepts, if_false]
      exact sound.refuse here undecided accepts
  next => contradiction

theorem Sound.leaveLoop (sound : scheduler.Sound workerCount) (here : scheduler.workers[worker]? = some .waiting)
    (stopping : scheduler.stopping = true) (empty : scheduler.queuedEntries = 0) :
    { scheduler with workers := scheduler.workers.set worker .exited }.Sound workerCount := by
  constructor
  case workers => simpa using sound.workers
  case active =>
    have moved := @total_set _ _ _ _ .exited SchedulerWorker.busy here
    have same := sound.active
    simp only [SchedulerWorker.busy, Nat.add_zero] at moved
    dsimp only
    omega
  case balance =>
    have moved := @total_set _ _ _ _ .exited SchedulerWorker.late here
    have same := sound.balance
    simp only [SchedulerWorker.late, Nat.add_zero] at moved
    dsimp only
    omega
  case placed =>
    intro task
    have moved := @total_set _ _ _ _ .exited (SchedulerWorker.holds task) here
    have same := sound.placed task
    simp only [SchedulerWorker.holds, Nat.add_zero] at moved
    dsimp only [tasks] at same ⊢
    omega
  case ended =>
    intro task
    have moved := @total_set _ _ _ _ .exited (SchedulerWorker.runs task) here
    have same := sound.ended task
    simp only [SchedulerWorker.runs, Nat.add_zero] at moved
    dsimp only
    omega
  case exited => exact fun member => ⟨stopping, empty⟩
  case fits => exact sound.fits
  case entryLimit => exact sound.entryLimit
  case byteLimit => exact sound.byteLimit
  case queued => exact sound.queued
  case drained => exact sound.drained
  case done => exact sound.done
  case accepted => exact sound.accepted
  case rejected => exact sound.rejected
  case distinct => exact sound.distinct
  case decided => exact sound.decided
  case known => exact sound.known
  case reasons => exact sound.reasons

theorem Sound.pop (sound : scheduler.Sound workerCount) (here : scheduler.workers[worker]? = some .waiting)
    (present : scheduler.queuedEntries ≠ 0) {task : SchedulerTask} {rest : List SchedulerTask} {queue : Fin 3}
    (front : scheduler.queues queue = task :: rest) (credits : Fin 3 → Nat) (nextQueue : Nat) :
    { scheduler with
      queues := Function.update scheduler.queues queue rest
      credits := credits
      nextQueue := nextQueue
      queuedEntries := sub64 scheduler.queuedEntries 1
      queuedBytes := sub64 scheduler.queuedBytes task.bytes
      active := scheduler.active + 1
      workers := scheduler.workers.set worker (.taken task) }.Sound workerCount := by
  have undrained : scheduler.drain = .idle := by
    by_contra drained
    exact present (sound.drained drained).1
  obtain ⟨entries, bytes⟩ := sound.queued undrained
  obtain ⟨entriesFit, bytesFit⟩ := sound.fits
  have entryLimit := sound.entryLimit
  have byteLimit := sound.byteLimit
  have popped := popped_perm front
  have length : scheduler.tasks.length = (tasksOf (Function.update scheduler.queues queue rest)).length + 1 := popped.length_eq
  have sum : bytesOf scheduler.tasks = task.bytes + bytesOf (tasksOf (Function.update scheduler.queues queue rest)) :=
    (total_perm popped).trans total_cons
  -- The queue holds the task, so neither count goes below zero.
  have fewerEntries : sub64 scheduler.queuedEntries 1 = scheduler.queuedEntries - 1 := sub64_eq (by omega) (by omega)
  have fewerBytes : sub64 scheduler.queuedBytes task.bytes = scheduler.queuedBytes - task.bytes :=
    sub64_eq (by omega) (by omega)
  constructor
  case workers => simpa using sound.workers
  case entryLimit =>
    have within : (tasksOf (Function.update scheduler.queues queue rest)).length ≤ scheduler.maxEntries := by omega
    exact within
  case byteLimit =>
    have within : bytesOf (tasksOf (Function.update scheduler.queues queue rest)) ≤ scheduler.maxBytes := by omega
    exact within
  case queued =>
    intro idle
    have left : scheduler.queuedEntries - 1 = (tasksOf (Function.update scheduler.queues queue rest)).length ∧
        scheduler.queuedBytes - task.bytes = bytesOf (tasksOf (Function.update scheduler.queues queue rest)) := by omega
    exact ⟨fewerEntries.trans left.1, fewerBytes.trans left.2⟩
  case drained => exact fun drained => absurd undrained drained
  case done => exact fun done => absurd undrained (by simp [show scheduler.drain = .done from done])
  case active =>
    have moved := @total_set _ _ _ _ (.taken task) SchedulerWorker.busy here
    have same := sound.active
    simp only [SchedulerWorker.busy] at moved
    dsimp only
    omega
  case balance =>
    have moved := @total_set _ _ _ _ (.taken task) SchedulerWorker.late here
    have same := sound.balance
    simp only [SchedulerWorker.late, Nat.add_zero] at moved
    dsimp only
    omega
  case placed =>
    intro other
    have moved := @total_set _ _ _ _ (.taken task) (SchedulerWorker.holds other) here
    have same := sound.placed other
    have shorter : countOf other scheduler.tasks =
        (if task.id = other then 1 else 0) + countOf other (tasksOf (Function.update scheduler.queues queue rest)) :=
      (total_perm popped).trans total_cons
    simp only [SchedulerWorker.holds, Nat.add_zero] at moved
    dsimp only [tasks] at shorter same ⊢
    omega
  case ended =>
    intro other
    have moved := @total_set _ _ _ _ (.taken task) (SchedulerWorker.runs other) here
    have same := sound.ended other
    simp only [SchedulerWorker.runs, Nat.add_zero] at moved
    dsimp only
    omega
  case exited =>
    intro member
    rcases List.mem_or_eq_of_mem_set member with old | new
    · exact absurd (sound.exited old).2 present
    · nomatch new
  case fits => exact sound.fits
  case accepted => exact sound.accepted
  case rejected => exact sound.rejected
  case distinct => exact sound.distinct
  case decided => exact sound.decided
  case known => exact sound.known
  case reasons => exact sound.reasons

theorem Sound.take (sound : scheduler.Sound workerCount) (stepped : scheduler.step (.take worker now) = some next) :
    next.Sound workerCount := by
  simp only [step] at stepped
  split at stepped
  next here =>
    unfold WorkloadScheduler.take at stepped
    split at stepped
    next => contradiction
    next awake =>
      split at stepped
      next ended =>
        simp only [Bool.and_eq_true, decide_eq_true_eq] at ended
        cases stepped
        exact sound.leaveLoop here ended.1 ended.2
      next more =>
        have present : scheduler.queuedEntries ≠ 0 := by
          intro empty
          cases stopping : scheduler.stopping <;> simp [empty, stopping] at awake more
        have taken := @takeTaskLocked_taken scheduler now
        cases took : scheduler.takeTaskLocked now with
        | mk found later =>
          rw [took] at taken stepped
          cases taken with
          | one queue credits nextQueue front =>
            cases stepped
            exact sound.pop here present front credits nextQueue
          | nothing credits nextQueue empty =>
            have undrained : scheduler.drain = .idle := by
              by_contra drained
              exact present (sound.drained drained).1
            rw [(sound.queued undrained).1, empty] at present
            exact absurd rfl present
  next => contradiction

theorem firstQueued_spec :
    (scheduler.firstQueued = none → scheduler.tasks = []) ∧
      ∀ queue task rest, scheduler.firstQueued = some (queue, task, rest) → scheduler.queues queue = task :: rest := by
  unfold firstQueued
  cases zero : scheduler.queues 0 <;> cases one : scheduler.queues 1 <;> cases two : scheduler.queues 2 <;>
    simp [tasks, tasksOf, zero, one, two]

theorem Sound.shutdown (sound : scheduler.Sound workerCount)
    (stepped : scheduler.step (.requestShutdown cancelPending) = some next) : next.Sound workerCount := by
  cases stepped
  unfold WorkloadScheduler.requestShutdown
  split
  next => exact sound
  next live =>
    have undrained : scheduler.drain = .idle := by
      by_contra drained
      exact live (sound.drained drained).2.2
    split
    next =>
      constructor
      case queued => exact fun idle => nomatch idle
      case drained => exact fun _ => ⟨rfl, rfl, rfl⟩
      case done => exact fun done => nomatch done
      case balance =>
        have same := sound.balance
        dsimp only
        omega
      case placed =>
        intro task
        have same := sound.placed task
        rw [undrained] at same
        exact same
      case exited => exact fun _ => ⟨rfl, rfl⟩
      case reasons =>
        intro cancel member
        rcases sound.reasons cancel member with ⟨-, drained⟩ | given
        · exact absurd undrained drained
        · exact .inr given
      case workers => exact sound.workers
      case fits => exact sound.fits
      case entryLimit => exact sound.entryLimit
      case byteLimit => exact sound.byteLimit
      case active => exact sound.active
      case accepted => exact sound.accepted
      case rejected => exact sound.rejected
      case distinct => exact sound.distinct
      case decided => exact sound.decided
      case known => exact sound.known
      case ended => exact sound.ended
    next => exact { sound with
      drained := fun drained => absurd undrained drained
      exited := fun member => ⟨rfl, (sound.exited member).2⟩ }

theorem Sound.drainDone (sound : scheduler.Sound workerCount) (draining : scheduler.drain = .draining)
    (empty : scheduler.tasks = []) : { scheduler with drain := .done }.Sound workerCount := by
  have drained := sound.drained (by simp [draining])
  constructor
  case queued => exact fun idle => nomatch idle
  case drained => exact fun _ => drained
  case done => exact fun _ => empty
  case placed =>
    intro task
    have same := sound.placed task
    rw [draining] at same
    exact same
  case reasons =>
    intro cancel member
    rcases sound.reasons cancel member with ⟨stopped, -⟩ | given
    · exact .inl ⟨stopped, by simp⟩
    · exact .inr given
  case workers => exact sound.workers
  case fits => exact sound.fits
  case entryLimit => exact sound.entryLimit
  case byteLimit => exact sound.byteLimit
  case active => exact sound.active
  case balance => exact sound.balance
  case accepted => exact sound.accepted
  case rejected => exact sound.rejected
  case distinct => exact sound.distinct
  case decided => exact sound.decided
  case known => exact sound.known
  case ended => exact sound.ended
  case exited => exact sound.exited

theorem Sound.drainTask (sound : scheduler.Sound workerCount) (draining : scheduler.drain = .draining) {task : SchedulerTask}
    {rest : List SchedulerTask} {queue : Fin 3} (front : scheduler.queues queue = task :: rest) :
    { scheduler with
      queues := Function.update scheduler.queues queue rest, drain := .dropping task.id }.Sound workerCount := by
  have drained := sound.drained (by simp [draining])
  have popped := popped_perm front
  have length : scheduler.tasks.length = (tasksOf (Function.update scheduler.queues queue rest)).length + 1 := popped.length_eq
  have sum : bytesOf scheduler.tasks = task.bytes + bytesOf (tasksOf (Function.update scheduler.queues queue rest)) :=
    (total_perm popped).trans total_cons
  have entryLimit := sound.entryLimit
  have byteLimit := sound.byteLimit
  constructor
  case entryLimit =>
    have within : (tasksOf (Function.update scheduler.queues queue rest)).length ≤ scheduler.maxEntries := by omega
    exact within
  case byteLimit =>
    have within : bytesOf (tasksOf (Function.update scheduler.queues queue rest)) ≤ scheduler.maxBytes := by omega
    exact within
  case queued => exact fun idle => nomatch idle
  case drained => exact fun _ => drained
  case done => exact fun done => nomatch done
  case placed =>
    intro other
    have same := sound.placed other
    have shorter : countOf other scheduler.tasks =
        (if task.id = other then 1 else 0) + countOf other (tasksOf (Function.update scheduler.queues queue rest)) :=
      (total_perm popped).trans total_cons
    rw [draining] at same
    simp only [DrainStage.holds] at same ⊢
    dsimp only [tasks] at shorter same ⊢
    omega
  case reasons =>
    intro cancel member
    rcases sound.reasons cancel member with ⟨stopped, -⟩ | given
    · exact .inl ⟨stopped, by simp⟩
    · exact .inr given
  case workers => exact sound.workers
  case fits => exact sound.fits
  case active => exact sound.active
  case balance => exact sound.balance
  case accepted => exact sound.accepted
  case rejected => exact sound.rejected
  case distinct => exact sound.distinct
  case decided => exact sound.decided
  case known => exact sound.known
  case ended => exact sound.ended
  case exited => exact sound.exited

theorem Sound.drop (sound : scheduler.Sound workerCount) (dropping : scheduler.drain = .dropping task) :
    { scheduler with
      drain := .draining, cancels := scheduler.cancels ++ [(task, SchedulerSubmitStatus.stopping)] }.Sound workerCount := by
  have drained := sound.drained (by simp [dropping])
  constructor
  case queued => exact fun idle => nomatch idle
  case drained => exact fun _ => drained
  case done => exact fun done => nomatch done
  case placed =>
    intro other
    have same := sound.placed other
    rw [dropping] at same
    simp only [DrainStage.holds] at same
    simp only [DrainStage.holds, cancelsOf_concat]
    dsimp only [tasks] at same ⊢
    omega
  case reasons =>
    intro cancel member
    rcases List.mem_append.mp member with old | new
    · rcases sound.reasons cancel old with ⟨stopped, -⟩ | given
      · exact .inl ⟨stopped, by simp⟩
      · exact .inr given
    · exact .inl ⟨by rw [List.mem_singleton.mp new], by simp⟩
  case workers => exact sound.workers
  case fits => exact sound.fits
  case entryLimit => exact sound.entryLimit
  case byteLimit => exact sound.byteLimit
  case active => exact sound.active
  case balance => exact sound.balance
  case accepted => exact sound.accepted
  case rejected => exact sound.rejected
  case distinct => exact sound.distinct
  case decided => exact sound.decided
  case known => exact sound.known
  case ended => exact sound.ended
  case exited => exact sound.exited

theorem Sound.drain (sound : scheduler.Sound workerCount) (stepped : scheduler.step .drain = some next) :
    next.Sound workerCount := by
  simp only [step] at stepped
  split at stepped
  next draining =>
    cases stepped
    unfold drainNext
    split
    next missing => exact sound.drainDone draining (firstQueued_spec.1 missing)
    next queue task rest found => exact sound.drainTask draining (firstQueued_spec.2 queue task rest found)
  next task dropping =>
    cases stepped
    exact sound.drop dropping
  all_goals contradiction

end WorkloadScheduler

end SubConverter.Utils
