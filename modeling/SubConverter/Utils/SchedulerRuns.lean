import SubConverter.Utils.SchedulerAccounting

set_option autoImplicit false

namespace SubConverter.Utils

namespace WorkloadScheduler

variable {scheduler next : WorkloadScheduler} {workerCount maxEntries maxBytes index worker bytes now task : Nat}
  {cost : RequestCostClass} {deadline : Option Nat} {cancelled cancelPending : Bool} {submission : SchedulerSubmission}

theorem Sound.step {action : SchedulerAction} (sound : scheduler.Sound workerCount) (stepped : scheduler.step action = some next) :
    next.Sound workerCount := by
  cases action with
  | submit cost bytes deadline now => exact sound.submit stepped
  | answer index cancelled => exact sound.answer stepped
  | take worker now => exact sound.take stepped
  | check worker cancelled now => exact sound.check stepped
  | finish worker => exact sound.finish stepped
  | countCancelled worker => exact sound.countCancelled stepped
  | leave worker => exact sound.leave stepped
  | requestShutdown cancelPending => exact sound.shutdown stepped
  | drain => exact sound.drain stepped

theorem run_sound {actions : List SchedulerAction} (fits : maxEntries < 2 ^ 64 ∧ maxBytes < 2 ^ 64)
    (ran : runSteps WorkloadScheduler.step (initial workerCount maxEntries maxBytes) actions = some scheduler) :
    scheduler.Sound workerCount :=
  runSteps_keeps Sound.step (initial_sound fits) ran

def Limited (maxEntries maxBytes : Nat) (scheduler : WorkloadScheduler) : Prop :=
  scheduler.maxEntries = maxEntries ∧ scheduler.maxBytes = maxBytes

theorem Limited.take (limited : scheduler.Limited maxEntries maxBytes) (stepped : scheduler.take worker now = some next) :
    next.Limited maxEntries maxBytes := by
  unfold WorkloadScheduler.take at stepped
  split at stepped
  next => contradiction
  next =>
    split at stepped
    next =>
      cases stepped
      exact limited
    next =>
      have taken := @takeTaskLocked_taken scheduler now
      cases took : scheduler.takeTaskLocked now with
      | mk found later =>
        rw [took] at taken stepped
        cases taken <;> cases stepped <;> exact limited

theorem Limited.step {action : SchedulerAction} (limited : scheduler.Limited maxEntries maxBytes)
    (stepped : scheduler.step action = some next) : next.Limited maxEntries maxBytes := by
  cases action with
  | submit cost bytes deadline now =>
    cases stepped
    exact limited
  | answer index cancelled =>
    obtain ⟨submission, here, stepped⟩ := Option.bind_eq_some_iff.mp stepped
    split at stepped
    · cases stepped
      by_cases accepts : scheduler.decision submission.task cancelled = .accepted
      · simp only [WorkloadScheduler.answer, accepts, if_true]
        exact limited
      · simp only [WorkloadScheduler.answer, accepts, if_false]
        exact limited
    · contradiction
  | take worker now =>
    simp only [WorkloadScheduler.step] at stepped
    split at stepped
    · exact limited.take stepped
    · contradiction
  | check worker cancelled now =>
    simp only [WorkloadScheduler.step] at stepped
    split at stepped
    · cases stepped
      unfold WorkloadScheduler.check
      split
      · exact limited
      · split <;> exact limited
    · contradiction
  | finish worker | countCancelled worker | leave worker =>
    simp only [WorkloadScheduler.step] at stepped
    split at stepped
    · cases stepped
      exact limited
    · contradiction
  | requestShutdown cancelPending =>
    cases stepped
    unfold WorkloadScheduler.requestShutdown
    split
    · exact limited
    · split <;> exact limited
  | drain =>
    simp only [WorkloadScheduler.step] at stepped
    split at stepped
    · cases stepped
      unfold drainNext
      split <;> exact limited
    · cases stepped
      exact limited
    all_goals contradiction

theorem run_limited {actions : List SchedulerAction}
    (ran : runSteps WorkloadScheduler.step (initial workerCount maxEntries maxBytes) actions = some scheduler) :
    scheduler.maxEntries = max 1 maxEntries ∧ scheduler.maxBytes = max 1 maxBytes := by
  have limited : (initial workerCount maxEntries maxBytes).Limited (max 1 maxEntries) (max 1 maxBytes) := by
    simp only [Limited, initial]
    constructor <;> split <;> omega
  have kept : scheduler.Limited (max 1 maxEntries) (max 1 maxBytes) := runSteps_keeps Limited.step limited ran
  exact kept

def Undisturbed (scheduler : WorkloadScheduler) : Prop := scheduler.drain = .idle ∨ scheduler.drain = .done

structure Conserves (maxEntries maxBytes : Nat) (scheduler : WorkloadScheduler) : Prop where
  entryLimit : scheduler.queuedEntries ≤ max 1 maxEntries
  byteLimit : scheduler.queuedBytes ≤ max 1 maxBytes
  queued : scheduler.Undisturbed →
    scheduler.queuedEntries = scheduler.tasks.length ∧ scheduler.queuedBytes = bytesOf scheduler.tasks
  drained : ¬scheduler.Undisturbed → scheduler.queuedEntries = 0 ∧ scheduler.queuedBytes = 0
  balance : scheduler.accepted + total SchedulerWorker.late scheduler.workers =
    scheduler.queuedEntries + scheduler.active + scheduler.finished.length + scheduler.cancelled
  counted : scheduler.accepted = scheduler.admitted.length
  reported : ∀ (index : Nat) (submission : SchedulerSubmission), scheduler.submissions[index]? = some submission →
    (submission.status = some .accepted ↔ index ∈ scheduler.admitted)
  once : ∀ task, scheduler.started.count task + cancelsOf task scheduler.cancels ≤ 1
  rejected : ∀ task, task ∉ scheduler.admitted → scheduler.started.count task + cancelsOf task scheduler.cancels = 0
  reasons : ∀ cancel ∈ scheduler.cancels,
    cancel.2 = .stopping ∧ scheduler.drain ≠ .idle ∨ cancel.2 = .cancelled ∨ cancel.2 = .deadline
  settled : scheduler.Undisturbed → (∀ worker ∈ scheduler.workers, worker = .exited) → ∀ task ∈ scheduler.admitted,
    scheduler.finished.count task = scheduler.started.count task ∧
      scheduler.started.count task + cancelsOf task scheduler.cancels = 1

theorem Sound.queued_of_undisturbed (sound : scheduler.Sound workerCount) (undisturbed : scheduler.Undisturbed) :
    scheduler.queuedEntries = scheduler.tasks.length ∧ scheduler.queuedBytes = bytesOf scheduler.tasks := by
  rcases undisturbed with idle | done
  · exact sound.queued idle
  · obtain ⟨entries, bytes, -⟩ := sound.drained (by simp [done])
    rw [sound.done done]
    exact ⟨entries, bytes⟩

theorem scheduler_conserves {actions : List SchedulerAction} (manned : 0 < workerCount)
    (fits : maxEntries < 2 ^ 64 ∧ maxBytes < 2 ^ 64)
    (ran : runSteps WorkloadScheduler.step (initial workerCount maxEntries maxBytes) actions = some scheduler) :
    scheduler.Conserves maxEntries maxBytes := by
  have sound := run_sound fits ran
  have atMost (task : Nat) := List.nodup_iff_count_le_one.mp sound.distinct task
  obtain ⟨entriesLimit, bytesLimit⟩ := run_limited ran
  constructor
  case entryLimit =>
    rw [← entriesLimit]
    by_cases idle : scheduler.drain = .idle
    · exact (sound.queued idle).1 ▸ sound.entryLimit
    · exact (sound.drained idle).1 ▸ Nat.zero_le _
  case byteLimit =>
    rw [← bytesLimit]
    by_cases idle : scheduler.drain = .idle
    · exact (sound.queued idle).2 ▸ sound.byteLimit
    · exact (sound.drained idle).2.1 ▸ Nat.zero_le _
  case queued => exact sound.queued_of_undisturbed
  case drained =>
    intro disturbed
    obtain ⟨entries, bytes, -⟩ := sound.drained fun idle => disturbed (.inl idle)
    exact ⟨entries, bytes⟩
  case balance => exact sound.balance
  case counted => exact sound.accepted
  case reported => exact fun index submission here => (sound.decided index submission here).2
  case once =>
    intro task
    have placed := sound.placed task
    have once := atMost task
    omega
  case rejected =>
    intro task absent
    have placed := sound.placed task
    have none := List.count_eq_zero.mpr absent
    omega
  case reasons => exact sound.reasons
  case settled =>
    intro undisturbed exited task member
    obtain ⟨worker, last⟩ : ∃ worker, worker ∈ scheduler.workers := List.exists_mem_of_length_pos (sound.workers ▸ manned)
    have empty := (sound.exited (exited worker last ▸ last)).2
    have unqueued : scheduler.tasks = [] := by
      rw [(sound.queued_of_undisturbed undisturbed).1] at empty
      exact List.length_eq_zero_iff.mp empty
    have holding : total (SchedulerWorker.holds task) scheduler.workers = 0 :=
      total_eq_zero_iff.mpr fun worker member => by rw [exited worker member]; rfl
    have running : total (SchedulerWorker.runs task) scheduler.workers = 0 :=
      total_eq_zero_iff.mpr fun worker member => by rw [exited worker member]; rfl
    have undropped : scheduler.drain.holds task = 0 := by
      rcases undisturbed with idle | done
      · rw [idle]; rfl
      · rw [done]; rfl
    have placed := sound.placed task
    have ended := sound.ended task
    have positive := List.count_pos_iff.mpr member
    have once := atMost task
    rw [unqueued] at placed
    have none : countOf task [] = 0 := rfl
    constructor <;> omega

def shutdownRun : List SchedulerAction :=
  [.submit .high 5 none 10, .submit .unclassified 3 (some 90) 11, .submit .low 2 none 12, .submit .low 9 none 13,
    .answer 0 false, .answer 1 false, .answer 2 false, .answer 3 false, .take 0 20, .take 1 21, .check 0 false 22, .check 1 true 23,
    .countCancelled 1, .requestShutdown true, .leave 1, .take 1 24, .drain, .finish 0, .take 0 25, .drain, .drain]

theorem scheduler_conserves_shutdown : 0 < 2 ∧ 4 < 2 ^ 64 ∧ 10 < 2 ^ 64 ∧
    ∃ scheduler, runSteps step (initial 2 4 10) shutdownRun = some scheduler ∧ scheduler.Conserves 4 10 :=
  ⟨by decide, by decide, by decide, _, rfl,
    @scheduler_conserves _ 2 4 10 shutdownRun (by decide) ⟨by decide, by decide⟩ rfl⟩

theorem scheduler_conserves_late :
    (∃ scheduler, runSteps step (initial 2 4 10) (shutdownRun.take 13) = some scheduler ∧
      scheduler.accepted = 3 ∧ scheduler.queuedEntries = 1 ∧ scheduler.active = 2 ∧ scheduler.finished.length = 0 ∧
        scheduler.cancelled = 1) ∧
      ∃ scheduler, runSteps step (initial 2 4 10) (shutdownRun.take 14) = some scheduler ∧
        scheduler.queuedEntries = 0 ∧ scheduler.tasks.length = 1 ∧ scheduler.cancels = [(1, .cancelled)] :=
  ⟨⟨_, rfl, rfl, rfl, rfl, rfl, rfl⟩, _, rfl, rfl, rfl, rfl⟩

end WorkloadScheduler

end SubConverter.Utils
