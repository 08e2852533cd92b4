import SubConverter.Utils.SchedulerRuns

set_option autoImplicit false

namespace SubConverter.Utils

namespace WorkloadScheduler

section Turns

variable (scheduler : WorkloadScheduler)

def bypasses (now : Nat) : Bool := scheduler.oldestFront.any fun oldest => oldest.2 + 500000000 ≤ now

def served (now : Nat) : Option (Fin 3) :=
  [(0 : Fin 3), 1, 2].find? fun queue => (scheduler.takeTaskLocked now).2.queues queue ≠ scheduler.queues queue

-- A worker calls `takeTaskLocked` when it wakes up and entries are counted in the queues.
def callTime : SchedulerAction → Option Nat
  | .take worker now =>
    if scheduler.workers[worker]? = some .waiting ∧ scheduler.queuedEntries ≠ 0 then some now else none
  | _ => none

structure Turn where
  recharges : Bool
  served : Option (Fin 3)
deriving DecidableEq, Repr

def turnAt (action : SchedulerAction) : Option Turn :=
  (scheduler.callTime action).bind fun now =>
    if scheduler.bypasses now then none else some ⟨!scheduler.activeHasCredit, scheduler.served now⟩

def turns : WorkloadScheduler → List SchedulerAction → List Turn
  | _, [] => []
  | scheduler, action :: rest =>
    (scheduler.turnAt action).toList ++ ((scheduler.step action).map fun next => turns next rest).getD []

end Turns

section Places

variable {queue index : Fin 3} {turn : Nat}

def turnsTo (queue : Fin 3) (turn : Nat) : Nat :=
  let skipped := (queue.val + 3 - turn % 3) % 3
  skipped + 1 + if 2 ^ 64 ≤ turn + skipped then 1 else 0

theorem turnsTo_pos : 1 ≤ turnsTo queue turn := by
  simp only [turnsTo]
  omega

theorem turnsTo_le : turnsTo queue turn ≤ 4 := by
  simp only [turnsTo]
  split <;> omega

theorem turnsTo_next (fits : turn < 2 ^ 64) (elsewhere : turn % 3 ≠ queue.val) :
    turnsTo queue turn = turnsTo queue (add64 turn 1) + 1 := by
  have small := queue.isLt
  by_cases wraps : turn + 1 < 2 ^ 64
  · have next : add64 turn 1 = turn + 1 := add64_eq wraps
    rw [next]
    simp only [turnsTo]
    split <;> split <;> omega
  · obtain rfl : turn = 2 ^ 64 - 1 := by omega
    match queue, elsewhere with
    | 0, elsewhere => exact absurd rfl elsewhere
    | 1, _ | 2, _ => rfl

theorem turnsTo_behind (fits : turn < 2 ^ 64) (elsewhere : turn % 3 ≠ queue.val) : turnsTo queue (add64 turn 1) ≤ 3 := by
  have next := turnsTo_next fits elsewhere
  have bound := @turnsTo_le queue turn
  omega

theorem add64_lt (turn : Nat) : add64 turn 1 < 2 ^ 64 := Nat.mod_lt _ (by decide)

end Places

section Rounds

variable {scheduler : WorkloadScheduler} {queue : Fin 3} {attempts now : Nat}

structure Pass (scheduler : WorkloadScheduler) (credits : Fin 3 → Nat) (took : Option SchedulerTask × WorkloadScheduler) (index : Fin 3)
    (place : Nat) : Prop where
  fits : place < 2 ^ 64
  visited : place % 3 = index.val
  credit : credits index ≠ 0
  front : ∃ task rest, scheduler.queues index = task :: rest ∧ took.1 = some task ∧
    took.2.queues = Function.update scheduler.queues index rest
  credits : took.2.credits = Function.update credits index (credits index - 1)
  nextQueue : took.2.nextQueue = add64 place 1

theorem popLocked_front {index : Fin 3} {task : SchedulerTask} {rest : List SchedulerTask}
    (front : scheduler.queues index = task :: rest) :
    (scheduler.popLocked index).1 = some task ∧ (scheduler.popLocked index).2.queues = Function.update scheduler.queues index rest ∧
      (scheduler.popLocked index).2.credits = scheduler.credits ∧
      (scheduler.popLocked index).2.nextQueue = scheduler.nextQueue := by
  simp [popLocked, front]

theorem attempt_passes {credits : Fin 3 → Nat} {turn : Nat} (fits : turn < 2 ^ 64) (credit : credits queue ≠ 0)
    (filled : scheduler.queues queue ≠ []) (enough : turnsTo queue turn ≤ attempts) :
    ∃ index place, Pass scheduler credits (attempt attempts (scheduler.turned credits turn)) index place ∧
      ∀ other, credits other ≠ 0 → scheduler.queues other ≠ [] → turnsTo other place ≤ turnsTo other turn := by
  induction attempts generalizing turn with
  | zero =>
    simp only [turnsTo] at enough
    omega
  | succ attempts ih =>
    simp only [attempt]
    split
    next passed =>
      have elsewhere : ∀ other, credits other ≠ 0 → scheduler.queues other ≠ [] → turn % 3 ≠ other.val := by
        intro other credit filled here
        obtain rfl : (scheduler.turned credits turn).nextIndex = other := Fin.ext here
        rcases passed with spent | empty
        · exact credit spent
        · exact filled empty
      have next := turnsTo_next fits (elsewhere queue credit filled)
      obtain ⟨index, place, pass, nearer⟩ := ih (add64_lt turn) (by omega)
      refine ⟨index, place, pass, fun other credit filled => ?_⟩
      have moved := turnsTo_next fits (elsewhere other credit filled)
      have kept := nearer other credit filled
      omega
    next present =>
      obtain ⟨spent, filled⟩ := not_or.mp present
      obtain ⟨task, rest, front⟩ := List.exists_cons_of_ne_nil filled
      obtain ⟨took, queues, left, moved⟩ := @popLocked_front { scheduler.turned credits turn with
        nextQueue := add64 turn 1
        credits := Function.update credits (scheduler.turned credits turn).nextIndex
          (credits (scheduler.turned credits turn).nextIndex - 1) } _ _ _ front
      exact ⟨_, turn, ⟨fits, rfl, spent, ⟨task, rest, front, took, queues⟩, left, moved⟩, fun _ _ _ => le_rfl⟩

theorem activeHasCredit_iff : scheduler.activeHasCredit = true ↔ ∃ queue, scheduler.queues queue ≠ [] ∧ scheduler.credits queue ≠ 0 := by
  simp [activeHasCredit, Fin.exists_fin_succ]

theorem refill_eq (scheduler : WorkloadScheduler) :
    scheduler.refill = scheduler.turned scheduler.refill.credits scheduler.nextQueue := by
  unfold refill
  split <;> rfl

theorem refill_credits_of_active (active : scheduler.activeHasCredit = true) : scheduler.refill.credits = scheduler.credits := by
  rw [refill, if_pos active]

theorem refill_credits_of_spent (spent : scheduler.activeHasCredit = false) (filled : scheduler.queues queue ≠ []) :
    scheduler.refill.credits queue = kWeights queue := by
  rw [refill, spent]
  exact if_neg filled

theorem kWeights_pos (queue : Fin 3) : kWeights queue ≠ 0 := by
  revert queue
  decide

theorem refill_active (filled : scheduler.queues queue ≠ []) :
    ∃ active, scheduler.refill.credits active ≠ 0 ∧ scheduler.queues active ≠ [] := by
  cases had : scheduler.activeHasCredit with
  | true =>
    obtain ⟨active, waiting, credit⟩ := activeHasCredit_iff.mp had
    exact ⟨active, by rwa [refill_credits_of_active had], waiting⟩
  | false => exact ⟨queue, by rw [refill_credits_of_spent had filled]; exact kWeights_pos queue, filled⟩

theorem refill_passes (fits : scheduler.nextQueue < 2 ^ 64) (filled : scheduler.queues queue ≠ []) :
    ∃ index place, Pass scheduler scheduler.refill.credits (attempt 6 scheduler.refill) index place ∧
      ∀ other, scheduler.refill.credits other ≠ 0 → scheduler.queues other ≠ [] →
        turnsTo other place ≤ turnsTo other scheduler.nextQueue := by
  obtain ⟨active, credit, waiting⟩ := refill_active filled
  rw [refill_eq scheduler]
  have enough : turnsTo active scheduler.nextQueue ≤ 6 := turnsTo_le.trans (by decide)
  exact attempt_passes fits credit waiting enough

theorem Pass.found {credits : Fin 3 → Nat} {took : Option SchedulerTask × WorkloadScheduler} {index : Fin 3} {place : Nat}
    (pass : Pass scheduler credits took index place) : took.1.isSome = true := by
  obtain ⟨task, rest, -, found, -⟩ := pass.front
  rw [found]
  rfl

theorem takeTaskLocked_eq_attempt (direct : scheduler.bypasses now = false)
    (found : (attempt 6 scheduler.refill).1.isSome = true) : scheduler.takeTaskLocked now = attempt 6 scheduler.refill := by
  obtain ⟨task, taken⟩ := Option.isSome_iff_exists.mp found
  unfold bypasses at direct
  unfold takeTaskLocked
  generalize scheduler.oldestFront = oldest at direct
  generalize attempt 6 scheduler.refill = tried at taken
  obtain ⟨first, second⟩ := tried
  obtain rfl : first = some task := taken
  cases oldest with
  | none => rfl
  | some front =>
    rw [Option.any_some, decide_eq_false_iff_not] at direct
    dsimp only
    rw [if_neg direct]

theorem takeTaskLocked_eq_fallback (direct : scheduler.bypasses now = false) (missing : (attempt 6 scheduler.refill).1 = none) :
    scheduler.takeTaskLocked now =
      match scheduler.oldestFront with
      | none => (none, (attempt 6 scheduler.refill).2)
      | some front => (attempt 6 scheduler.refill).2.popLocked front.1 := by
  unfold bypasses at direct
  unfold takeTaskLocked
  generalize scheduler.oldestFront = oldest at direct
  generalize attempt 6 scheduler.refill = tried at missing
  obtain ⟨first, second⟩ := tried
  obtain rfl : first = none := missing
  cases oldest with
  | none => rfl
  | some front =>
    rw [Option.any_some, decide_eq_false_iff_not] at direct
    dsimp only
    rw [if_neg direct]

theorem Pass.served {index : Fin 3} {place : Nat} {credits : Fin 3 → Nat}
    (pass : Pass scheduler credits (scheduler.takeTaskLocked now) index place) : scheduler.served now = some index := by
  obtain ⟨task, rest, front, -, queues⟩ := pass.front
  have changed : ∀ queue, (scheduler.takeTaskLocked now).2.queues queue ≠ scheduler.queues queue ↔ queue = index := by
    intro queue
    rw [queues]
    by_cases same : queue = index
    · subst same
      simp [front]
    · simp [same]
  simp only [WorkloadScheduler.served, changed]
  fin_cases index <;> rfl

theorem takeTaskLocked_bypass (old : scheduler.bypasses now = true) :
    (scheduler.takeTaskLocked now).2.credits = scheduler.credits ∧
      (scheduler.takeTaskLocked now).2.nextQueue = scheduler.nextQueue := by
  unfold bypasses at old
  cases oldest : scheduler.oldestFront with
  | none =>
    rw [oldest, Option.any_none] at old
    cases old
  | some front =>
    rw [oldest, Option.any_some, decide_eq_true_eq] at old
    obtain ⟨task, rest, waiting⟩ := oldestFront_some oldest
    obtain ⟨-, -, credits, turn⟩ := popLocked_front waiting
    have whole : scheduler.takeTaskLocked now = scheduler.popLocked front.1 := by
      unfold takeTaskLocked
      generalize attempt 6 scheduler.refill = tried
      rw [oldest]
      exact if_pos old
    rw [whole]
    exact ⟨credits, turn⟩

end Rounds

section Steps

variable {scheduler next : WorkloadScheduler} {action : SchedulerAction} {turn : Turn}

theorem step_take {worker now : Nat} (called : scheduler.callTime (.take worker now) = some now) :
    ∃ next, scheduler.step (.take worker now) = some next ∧ next.credits = (scheduler.takeTaskLocked now).2.credits ∧
      next.nextQueue = (scheduler.takeTaskLocked now).2.nextQueue := by
  obtain ⟨waiting, counted⟩ : scheduler.workers[worker]? = some .waiting ∧ scheduler.queuedEntries ≠ 0 := by
    by_contra other
    simp [callTime, other] at called
  simp only [step, waiting, if_true, take, counted, decide_false, Bool.and_false, Bool.false_eq_true, if_false]
  cases took : scheduler.takeTaskLocked now with
  | mk found later => cases found <;> exact ⟨_, rfl, rfl, rfl⟩

theorem callTime_eq_some {now : Nat} (called : scheduler.callTime action = some now) :
    ∃ worker, action = .take worker now := by
  cases action with
  | take worker time =>
    simp only [callTime, Option.ite_none_right_eq_some, Option.some.injEq] at called
    exact ⟨worker, by rw [called.2]⟩
  | _ => cases called

theorem step_keeps (stepped : scheduler.step action = some next) (other : scheduler.turnAt action = none) :
    next.credits = scheduler.credits ∧ next.nextQueue = scheduler.nextQueue := by
  cases action with
  | submit cost bytes deadline now =>
    cases stepped
    exact ⟨rfl, rfl⟩
  | answer index cancelled =>
    obtain ⟨submission, -, stepped⟩ := Option.bind_eq_some_iff.mp stepped
    rw [Option.ite_none_right_eq_some, Option.some.injEq] at stepped
    rw [← stepped.2, answer]
    dsimp only
    split <;> exact ⟨rfl, rfl⟩
  | take worker now =>
    cases called : scheduler.callTime (.take worker now) with
    | some time =>
      obtain ⟨worker', same⟩ := callTime_eq_some called
      cases same
      have old : scheduler.bypasses now = true := by simpa [turnAt, called] using other
      obtain ⟨later, reached, credits, place⟩ := step_take called
      obtain rfl : later = next := Option.some.inj (reached.symm.trans stepped)
      rw [credits, place]
      exact takeTaskLocked_bypass old
    | none =>
      simp only [step, Option.ite_none_right_eq_some] at stepped
      obtain ⟨waiting, stepped⟩ := stepped
      have uncounted : scheduler.queuedEntries = 0 := by
        by_contra counted
        simp [callTime, waiting, counted] at called
      unfold take at stepped
      split at stepped
      · cases stepped
      · rename_i stops
        have stopping : scheduler.stopping = true := by simpa [uncounted] using stops
        simp only [stopping, uncounted, decide_true, Bool.and_self, if_true, Option.some.injEq] at stepped
        rw [← stepped]
        exact ⟨rfl, rfl⟩
  | check worker cancelled now =>
    simp only [step] at stepped
    split at stepped
    · cases stepped
      unfold check
      split
      · exact ⟨rfl, rfl⟩
      · split <;> exact ⟨rfl, rfl⟩
    · cases stepped
  | finish worker | countCancelled worker | leave worker =>
    simp only [step] at stepped
    split at stepped
    · cases stepped
      exact ⟨rfl, rfl⟩
    · cases stepped
  | requestShutdown cancelPending =>
    cases stepped
    unfold requestShutdown
    split
    · exact ⟨rfl, rfl⟩
    · split <;> exact ⟨rfl, rfl⟩
  | drain =>
    simp only [step] at stepped
    split at stepped
    · cases stepped
      unfold drainNext
      split <;> exact ⟨rfl, rfl⟩
    · cases stepped
      exact ⟨rfl, rfl⟩
    all_goals cases stepped

structure Turned (scheduler next : WorkloadScheduler) (turn : Turn) (index : Fin 3) (place : Nat) : Prop where
  turn : turn = ⟨!scheduler.activeHasCredit, some index⟩
  fits : place < 2 ^ 64
  visited : place % 3 = index.val
  credit : scheduler.refill.credits index ≠ 0
  filled : scheduler.queues index ≠ []
  credits : next.credits = Function.update scheduler.refill.credits index (scheduler.refill.credits index - 1)
  nextQueue : next.nextQueue = add64 place 1
  nearer : ∀ other, scheduler.refill.credits other ≠ 0 → scheduler.queues other ≠ [] →
    turnsTo other place ≤ turnsTo other scheduler.nextQueue

theorem turnAt_eq_some (turned : scheduler.turnAt action = some turn) :
    ∃ worker now, action = .take worker now ∧ scheduler.callTime (.take worker now) = some now ∧
      scheduler.bypasses now = false ∧ turn = ⟨!scheduler.activeHasCredit, scheduler.served now⟩ := by
  obtain ⟨now, called, direct⟩ := Option.bind_eq_some_iff.mp turned
  obtain ⟨worker, rfl⟩ := callTime_eq_some called
  rw [Option.ite_none_left_eq_some, Option.some.injEq] at direct
  exact ⟨worker, now, rfl, called, Bool.eq_false_iff.mpr direct.1, direct.2.symm⟩

theorem takeTaskLocked_passes {queue : Fin 3} {now : Nat} (fits : scheduler.nextQueue < 2 ^ 64)
    (filled : scheduler.queues queue ≠ []) (direct : scheduler.bypasses now = false) :
    ∃ index place, Pass scheduler scheduler.refill.credits (scheduler.takeTaskLocked now) index place ∧
      ∀ other, scheduler.refill.credits other ≠ 0 → scheduler.queues other ≠ [] →
        turnsTo other place ≤ turnsTo other scheduler.nextQueue := by
  obtain ⟨index, place, pass, nearer⟩ := refill_passes fits filled
  rw [← takeTaskLocked_eq_attempt direct pass.found] at pass
  exact ⟨index, place, pass, nearer⟩

theorem step_turns {queue : Fin 3} (fits : scheduler.nextQueue < 2 ^ 64) (filled : scheduler.queues queue ≠ [])
    (turned : scheduler.turnAt action = some turn) :
    ∃ next index place, scheduler.step action = some next ∧ Turned scheduler next turn index place := by
  obtain ⟨worker, now, rfl, called, direct, rfl⟩ := turnAt_eq_some turned
  obtain ⟨index, place, pass, nearer⟩ := takeTaskLocked_passes fits filled direct
  obtain ⟨next, stepped, credits, turn⟩ := step_take called
  obtain ⟨task, rest, front, -⟩ := pass.front
  refine ⟨next, index, place, stepped, ?_⟩
  constructor
  case turn => rw [pass.served]
  case fits => exact pass.fits
  case visited => exact pass.visited
  case credit => exact pass.credit
  case filled => rw [front]; exact List.cons_ne_nil _ _
  case credits => rw [credits, pass.credits]
  case nextQueue => rw [turn, pass.nextQueue]
  case nearer => exact nearer

end Steps

section Weights

variable {scheduler next : WorkloadScheduler} {workerCount maxEntries maxBytes : Nat}

structure Weighted (scheduler : WorkloadScheduler) : Prop where
  credits : ∀ queue, scheduler.credits queue ≤ kWeights queue
  fits : scheduler.nextQueue < 2 ^ 64

theorem Weighted.congr (weighted : scheduler.Weighted)
    (same : next.credits = scheduler.credits ∧ next.nextQueue = scheduler.nextQueue) : next.Weighted :=
  ⟨by rw [same.1]; exact weighted.credits, by rw [same.2]; exact weighted.fits⟩

theorem Weighted.refill (weighted : scheduler.Weighted) : scheduler.refill.Weighted := by
  unfold WorkloadScheduler.refill
  split
  · exact weighted
  · refine ⟨fun queue => ?_, weighted.fits⟩
    dsimp only
    split <;> simp

theorem Weighted.popLocked (weighted : scheduler.Weighted) (index : Fin 3) : (scheduler.popLocked index).2.Weighted := by
  unfold WorkloadScheduler.popLocked
  split <;> exact ⟨weighted.credits, weighted.fits⟩

theorem Weighted.attempt (weighted : scheduler.Weighted) (attempts : Nat) : (attempt attempts scheduler).2.Weighted := by
  induction attempts generalizing scheduler with
  | zero => exact weighted
  | succ attempts ih =>
    simp only [WorkloadScheduler.attempt]
    split
    · exact ih ⟨weighted.credits, add64_lt _⟩
    · apply Weighted.popLocked
      refine ⟨fun queue => ?_, add64_lt _⟩
      have bound := weighted.credits queue
      by_cases same : queue = scheduler.nextIndex
      · subst same
        simp only [Function.update_self]
        omega
      · simpa [Function.update_of_ne same] using bound

theorem Weighted.takeTaskLocked (weighted : scheduler.Weighted) (now : Nat) : (scheduler.takeTaskLocked now).2.Weighted := by
  cases old : scheduler.bypasses now with
  | true => exact weighted.congr (takeTaskLocked_bypass old)
  | false =>
    have tried := weighted.refill.attempt 6
    cases found : (WorkloadScheduler.attempt 6 scheduler.refill).1 with
    | some task =>
      have direct := takeTaskLocked_eq_attempt old (Option.isSome_of_eq_some found)
      rw [direct]
      exact tried
    | none =>
      have fallback := takeTaskLocked_eq_fallback old found
      generalize WorkloadScheduler.attempt 6 scheduler.refill = took at tried fallback
      rw [fallback]
      split
      · exact tried
      · exact tried.popLocked _

theorem Weighted.step {action : SchedulerAction} (weighted : scheduler.Weighted)
    (stepped : scheduler.step action = some next) : next.Weighted := by
  cases turned : scheduler.turnAt action with
  | none => exact weighted.congr (step_keeps stepped turned)
  | some turn =>
    obtain ⟨worker, now, rfl, called, -⟩ := turnAt_eq_some turned
    obtain ⟨later, reached, credits, place⟩ := step_take called
    obtain rfl : later = next := Option.some.inj (reached.symm.trans stepped)
    exact (weighted.takeTaskLocked now).congr ⟨credits, place⟩

theorem run_weighted {actions : List SchedulerAction}
    (ran : runSteps WorkloadScheduler.step (initial workerCount maxEntries maxBytes) actions = some scheduler) :
    scheduler.Weighted :=
  runSteps_keeps Weighted.step ⟨fun _ => le_rfl, Nat.two_pow_pos 64⟩ ran

end Weights

section Patience

variable {scheduler next : WorkloadScheduler} {queue index : Fin 3} {turn : Turn} {place : Nat} {actions : List SchedulerAction}

def othersCredit (queue : Fin 3) (credits : Fin 3 → Nat) : Nat :=
  ∑ other, if other = queue then 0 else credits other

def patience (queue : Fin 3) (scheduler : WorkloadScheduler) : Nat :=
  if scheduler.credits queue ≠ 0 then turnsTo queue scheduler.nextQueue
  else max (turnsTo queue scheduler.nextQueue) (othersCredit queue scheduler.credits + 3)

theorem othersCredit_spend (queue : Fin 3) {credits : Fin 3 → Nat} (other : index ≠ queue) (credit : credits index ≠ 0) :
    othersCredit queue (Function.update credits index (credits index - 1)) + 1 = othersCredit queue credits := by
  fin_cases queue <;> fin_cases index <;> simp_all [othersCredit, Fin.sum_univ_three, Function.update] <;> omega

theorem Weighted.patience_le (weighted : scheduler.Weighted) (queue : Fin 3) : patience queue scheduler ≤ 15 := by
  have bound := @turnsTo_le queue scheduler.nextQueue
  have zero := weighted.credits 0
  have one := weighted.credits 1
  have two := weighted.credits 2
  have weights : kWeights 0 = 8 ∧ kWeights 1 = 4 ∧ kWeights 2 = 1 := by decide
  have others : othersCredit queue scheduler.credits ≤ 12 := by
    fin_cases queue <;> simp [othersCredit, Fin.sum_univ_three] <;> omega
  unfold patience
  split <;> omega

theorem Turned.patience_lt (turned : Turned scheduler next turn index place) (filled : scheduler.queues queue ≠ [])
    (other : index ≠ queue) : patience queue next < patience queue scheduler := by
  have elsewhere : place % 3 ≠ queue.val := fun here => other (Fin.ext (turned.visited.symm.trans here))
  have ahead := turnsTo_next turned.fits elsewhere
  have behind := turnsTo_behind turned.fits elsewhere
  have own : next.credits queue = scheduler.refill.credits queue := by
    rw [turned.credits, Function.update_of_ne (Ne.symm other)]
  have place := turned.nextQueue
  by_cases credit : scheduler.refill.credits queue = 0
  · -- Then there was no refill, and the others spend one of their credits.
    have active : scheduler.activeHasCredit = true := by
      by_contra spent
      rw [Bool.not_eq_true] at spent
      rw [refill_credits_of_spent spent filled] at credit
      exact kWeights_pos queue credit
    have kept := refill_credits_of_active active
    have spends := othersCredit_spend queue other turned.credit
    rw [← turned.credits, kept] at spends
    rw [kept] at credit own
    simp only [patience, own, credit, place, ne_eq, not_true_eq_false, if_false]
    omega
  · have nearer := turned.nearer queue credit filled
    rw [← own] at credit
    simp only [patience, credit, place, ne_eq, not_false_eq_true, if_true]
    split <;> omega

theorem turns_le_patience (weighted : scheduler.Weighted)
    (filled : StepsMeet step (fun scheduler _ => scheduler.queues queue ≠ []) scheduler actions)
    (passed : ∀ turn ∈ turns scheduler actions, turn.served ≠ some queue) :
    (turns scheduler actions).length < patience queue scheduler := by
  induction actions generalizing scheduler with
  | nil =>
    have positive := @turnsTo_pos queue scheduler.nextQueue
    simp only [turns, List.length_nil, patience]
    split <;> omega
  | cons action rest ih =>
    obtain ⟨waiting, later⟩ := filled
    rw [turns] at passed ⊢
    cases turned : scheduler.turnAt action with
    | none =>
      rw [turned] at passed
      cases stepped : scheduler.step action with
      | none =>
        have positive := @turnsTo_pos queue scheduler.nextQueue
        simp only [Option.toList_none, Option.map_none, Option.getD_none, List.append_nil, List.length_nil, patience]
        split <;> omega
      | some next =>
        rw [stepped] at passed
        obtain ⟨credits, place⟩ := step_keeps stepped turned
        have same : patience queue next = patience queue scheduler := by rw [patience, patience, credits, place]
        have shorter := ih (weighted.step stepped) (later next stepped) (by simpa using passed)
        simp only [Option.toList_none, Option.map_some, Option.getD_some, List.nil_append]
        omega
    | some turn =>
      obtain ⟨next, index, place, stepped, turned'⟩ := step_turns weighted.fits waiting turned
      rw [turned, stepped] at passed
      have other : index ≠ queue := by
        rintro rfl
        refine passed turn (by simp) ?_
        rw [turned'.turn]
      have shorter := ih (weighted.step stepped) (later next stepped) fun turn there => passed turn (by simp [there])
      have less := turned'.patience_lt waiting other
      simp only [stepped, Option.toList_some, Option.map_some, Option.getD_some, List.cons_append, List.nil_append, List.length_cons]
      omega

end Patience

section Cycles

variable {scheduler next : WorkloadScheduler} {actions : List SchedulerAction} {queue : Fin 3}

def servings (queue : Fin 3) (log : List Turn) : Nat := log.countP fun turn => turn.served = some queue

def AllFilled (scheduler : WorkloadScheduler) : Prop := ∀ queue, scheduler.queues queue ≠ []

theorem servings_cons (turn : Turn) (log : List Turn) :
    servings queue (turn :: log) = servings queue log + if turn.served = some queue then 1 else 0 := by
  simp [servings, List.countP_cons]

theorem activeHasCredit_eq_false_iff (filled : scheduler.AllFilled) :
    scheduler.activeHasCredit = false ↔ ∀ queue, scheduler.credits queue = 0 := by
  rw [← Bool.not_eq_true, activeHasCredit_iff, not_exists]
  exact forall_congr' fun queue => by simp [filled queue]

theorem Turned.spends {turn : Turn} {index : Fin 3} {place : Nat} (turned : Turned scheduler next turn index place) (queue : Fin 3) :
    next.credits queue + (if some index = some queue then 1 else 0) = scheduler.refill.credits queue := by
  have credit := turned.credit
  rw [turned.credits]
  by_cases own : queue = index
  · subst own
    rw [Function.update_self, if_pos rfl]
    omega
  · rw [Function.update_of_ne own, if_neg fun same => own (Option.some.inj same).symm, Nat.add_zero]

theorem turns_cons (action : SchedulerAction) (rest : List SchedulerAction) (weighted : scheduler.Weighted)
    (filled : scheduler.AllFilled) :
    (turns scheduler (action :: rest) = [] ∧ scheduler.step action = none) ∨
      (∃ next, scheduler.step action = some next ∧ next.credits = scheduler.credits ∧
        turns scheduler (action :: rest) = turns next rest) ∨
      ∃ next index place, scheduler.step action = some next ∧ Turned scheduler next ⟨!scheduler.activeHasCredit, some index⟩ index place ∧
        turns scheduler (action :: rest) = ⟨!scheduler.activeHasCredit, some index⟩ :: turns next rest := by
  rw [turns]
  cases turned : scheduler.turnAt action with
  | none =>
    cases stepped : scheduler.step action with
    | none => exact .inl ⟨rfl, rfl⟩
    | some next => exact .inr (.inl ⟨next, rfl, (step_keeps stepped turned).1, rfl⟩)
  | some turn =>
    obtain ⟨next, index, place, stepped, turned'⟩ := step_turns weighted.fits (filled 0) turned
    obtain rfl := turned'.turn
    exact .inr (.inr ⟨next, index, place, stepped, turned', by rw [stepped]; rfl⟩)

theorem servings_spent {passed rest : List Turn} {turn : Turn} (weighted : scheduler.Weighted)
    (filled : StepsMeet step (fun scheduler _ => scheduler.AllFilled) scheduler actions)
    (log : turns scheduler actions = passed ++ turn :: rest) (quiet : ∀ turn ∈ passed, turn.recharges = false) :
    (∀ queue, servings queue passed ≤ scheduler.credits queue) ∧
      (turn.recharges = true ↔ ∀ queue, servings queue passed = scheduler.credits queue) := by
  induction actions generalizing scheduler passed with
  | nil => simp [turns] at log
  | cons action actions ih =>
    obtain ⟨here, later⟩ := filled
    rcases turns_cons action actions weighted here with
      ⟨none, -⟩ | ⟨next, stepped, kept, same⟩ | ⟨next, index, place, stepped, turned, same⟩
    · rw [none] at log
      simp at log
    · rw [same] at log
      rw [← kept]
      exact ih (weighted.step stepped) (later next stepped) log quiet
    · rw [same] at log
      cases passed with
      | nil =>
        obtain ⟨rfl, -⟩ := List.cons.inj log
        refine ⟨fun queue => Nat.zero_le _, ?_⟩
        rw [Bool.not_eq_true', activeHasCredit_eq_false_iff here]
        exact forall_congr' fun queue => eq_comm
      | cons first passed =>
        obtain ⟨rfl, behind⟩ := List.cons.inj log
        have active : scheduler.activeHasCredit = true := by simpa using quiet _ List.mem_cons_self
        obtain ⟨bound, recharge⟩ := ih (weighted.step stepped) (later next stepped) behind
          fun turn there => quiet turn (List.mem_cons_of_mem _ there)
        have shifted := turned.spends
        rw [refill_credits_of_active active] at shifted
        refine ⟨fun queue => ?_, recharge.trans (forall_congr' fun queue => ?_)⟩
        · rw [servings_cons, ← shifted queue]
          exact Nat.add_le_add_right (bound queue) _
        · rw [servings_cons, ← shifted queue]
          exact Nat.add_right_cancel_iff.symm

theorem servings_recharged {before middle rest : List Turn} {first turn : Turn} (weighted : scheduler.Weighted)
    (filled : StepsMeet step (fun scheduler _ => scheduler.AllFilled) scheduler actions)
    (log : turns scheduler actions = before ++ first :: (middle ++ turn :: rest)) (recharges : first.recharges = true)
    (quiet : ∀ turn ∈ middle, turn.recharges = false) :
    (∀ queue, servings queue (first :: middle) ≤ kWeights queue) ∧
      (turn.recharges = true ↔ ∀ queue, servings queue (first :: middle) = kWeights queue) := by
  induction actions generalizing scheduler before with
  | nil => simp [turns] at log
  | cons action actions ih =>
    obtain ⟨here, later⟩ := filled
    rcases turns_cons action actions weighted here with
      ⟨none, -⟩ | ⟨next, stepped, -, same⟩ | ⟨next, index, place, stepped, turned, same⟩
    · rw [none] at log
      simp at log
    · rw [same] at log
      exact ih (weighted.step stepped) (later next stepped) log
    · rw [same] at log
      cases before with
      | cons _ before =>
        obtain ⟨-, log⟩ := List.cons.inj log
        exact ih (weighted.step stepped) (later next stepped) log
      | nil =>
        obtain ⟨rfl, behind⟩ := List.cons.inj log
        have spent : scheduler.activeHasCredit = false := by simpa using recharges
        obtain ⟨bound, recharge⟩ := servings_spent (weighted.step stepped) (later next stepped) behind quiet
        have shifted : ∀ queue, next.credits queue + (if some index = some queue then 1 else 0) = kWeights queue :=
          fun queue => (turned.spends queue).trans (refill_credits_of_spent spent (here queue))
        refine ⟨fun queue => ?_, recharge.trans (forall_congr' fun queue => ?_)⟩
        · rw [servings_cons, ← shifted queue]
          exact Nat.add_le_add_right (bound queue) _
        · rw [servings_cons, ← shifted queue]
          exact Nat.add_right_cancel_iff.symm

theorem turns_served (weighted : scheduler.Weighted)
    (filled : StepsMeet step (fun scheduler _ => scheduler.AllFilled) scheduler actions) :
    ∀ turn ∈ turns scheduler actions, turn.served.isSome = true := by
  induction actions generalizing scheduler with
  | nil => simp [turns]
  | cons action actions ih =>
    obtain ⟨here, later⟩ := filled
    rcases turns_cons action actions weighted here with
      ⟨none, -⟩ | ⟨next, stepped, -, same⟩ | ⟨next, index, place, stepped, -, same⟩
    · simp [none]
    · rw [same]
      exact ih (weighted.step stepped) (later next stepped)
    · rw [same, List.forall_mem_cons]
      exact ⟨rfl, ih (weighted.step stepped) (later next stepped)⟩

theorem length_eq_servings {log : List Turn} (served : ∀ turn ∈ log, turn.served.isSome = true) :
    log.length = servings 0 log + servings 1 log + servings 2 log := by
  induction log with
  | nil => rfl
  | cons turn log ih =>
    rw [List.forall_mem_cons] at served
    obtain ⟨queue, found⟩ := Option.isSome_iff_exists.mp served.1
    have shorter := ih served.2
    simp only [servings_cons, List.length_cons, found]
    fin_cases queue <;> simp <;> omega

end Cycles

section Fairness

variable {scheduler : WorkloadScheduler} {workerCount maxEntries maxBytes : Nat}

structure Fair (scheduler : WorkloadScheduler) : Prop where
  serves : ∀ (queue : Fin 3) (actions : List SchedulerAction),
    StepsMeet step (fun scheduler _ => scheduler.queues queue ≠ []) scheduler actions →
      15 ≤ (turns scheduler actions).length → ∃ turn ∈ turns scheduler actions, turn.served = some queue
  cycles : ∀ (actions : List SchedulerAction) (before middle rest : List Turn) (first turn : Turn),
    StepsMeet step (fun scheduler _ => scheduler.AllFilled) scheduler actions →
      turns scheduler actions = before ++ first :: (middle ++ turn :: rest) → first.recharges = true →
        (∀ turn ∈ middle, turn.recharges = false) →
          (turn.recharges = true ↔ (first :: middle).length = 13) ∧
            (turn.recharges = true → servings 0 (first :: middle) = 8 ∧ servings 1 (first :: middle) = 4 ∧
              servings 2 (first :: middle) = 1)
  takes : ∀ (queue : Fin 3) (now : Nat), scheduler.queues queue ≠ [] →
    (scheduler.takeTaskLocked now).1.isSome = true ∧ (attempt 6 scheduler.refill).1.isSome = true

theorem cycles_of_weighted (weighted : scheduler.Weighted) {actions : List SchedulerAction} {before middle rest : List Turn}
    {first turn : Turn} (filled : StepsMeet step (fun scheduler _ => scheduler.AllFilled) scheduler actions)
    (log : turns scheduler actions = before ++ first :: (middle ++ turn :: rest)) (recharges : first.recharges = true)
    (quiet : ∀ turn ∈ middle, turn.recharges = false) :
    (turn.recharges = true ↔ (first :: middle).length = 13) ∧
      (turn.recharges = true → servings 0 (first :: middle) = 8 ∧ servings 1 (first :: middle) = 4 ∧
        servings 2 (first :: middle) = 1) := by
  obtain ⟨bound, recharge⟩ := servings_recharged weighted filled log recharges quiet
  have served : ∀ turn ∈ first :: middle, turn.served.isSome = true := by
    intro turn there
    refine turns_served weighted filled turn ?_
    rw [log]
    simp only [List.mem_cons] at there
    simp only [List.mem_append, List.mem_cons]
    tauto
  have count := length_eq_servings served
  have weights : kWeights 0 = 8 ∧ kWeights 1 = 4 ∧ kWeights 2 = 1 := by decide
  have exactly : (∀ queue, servings queue (first :: middle) = kWeights queue) ↔
      servings 0 (first :: middle) = 8 ∧ servings 1 (first :: middle) = 4 ∧ servings 2 (first :: middle) = 1 := by
    rw [Fin.forall_fin_succ, Fin.forall_fin_two]
    exact Iff.rfl
  have zero' : servings 0 (first :: middle) ≤ 8 := weights.1 ▸ bound 0
  have one' : servings 1 (first :: middle) ≤ 4 := weights.2.1 ▸ bound 1
  have two' : servings 2 (first :: middle) ≤ 1 := weights.2.2 ▸ bound 2
  rw [recharge, exactly]
  exact ⟨by omega, id⟩

theorem takes_of_weighted (weighted : scheduler.Weighted) {queue : Fin 3} {now : Nat} (filled : scheduler.queues queue ≠ []) :
    (scheduler.takeTaskLocked now).1.isSome = true ∧ (attempt 6 scheduler.refill).1.isSome = true := by
  obtain ⟨index, place, pass, -⟩ := refill_passes weighted.fits filled
  refine ⟨?_, pass.found⟩
  have taken := @takeTaskLocked_taken scheduler now
  cases took : (scheduler.takeTaskLocked now).1 with
  | some task => rfl
  | none =>
    rw [took] at taken
    generalize (scheduler.takeTaskLocked now).2 = later at taken
    cases taken with
    | nothing credits nextQueue empty =>
      refine absurd ?_ filled
      simp only [tasks, tasksOf, List.append_eq_nil_iff] at empty
      obtain ⟨⟨zero, one⟩, two⟩ := empty
      fin_cases queue <;> assumption

theorem scheduler_fair {actions : List SchedulerAction}
    (ran : runSteps step (initial workerCount maxEntries maxBytes) actions = some scheduler) : scheduler.Fair := by
  have weighted := run_weighted ran
  constructor
  case serves =>
    intro queue actions filled enough
    by_contra passed
    push Not at passed
    have fewer := turns_le_patience weighted filled passed
    have bound := weighted.patience_le queue
    omega
  case cycles => exact fun actions before middle rest first turn => cycles_of_weighted weighted
  case takes => exact fun queue now => takes_of_weighted weighted

def crowdedRun : List SchedulerAction :=
  (List.replicate 10 RequestCostClass.low ++ List.replicate 6 RequestCostClass.medium ++ List.replicate 3 RequestCostClass.high).map
      (fun cost => .submit cost 1 none 10) ++
    (List.range 19).map fun index => .answer index false

theorem scheduler_fair_crowded :
    (∃ scheduler, runSteps step (initial 16 64 100) crowdedRun = some scheduler ∧ scheduler.Fair) ∧
      ((runSteps step (initial 16 64 100) crowdedRun).map fun scheduler =>
        (turns scheduler ((List.range 14).map fun worker => .take worker 20)).map fun turn => (turn.recharges, turn.served)) =
        some ([0, 1, 2, 0, 1, 0, 1, 0, 1, 0, 0, 0, 0].map (fun queue => (false, some queue)) ++ [(true, some 1)]) :=
  ⟨⟨_, rfl, @scheduler_fair _ 16 64 100 crowdedRun rfl⟩, by decide +kernel⟩

end Fairness

end WorkloadScheduler

end SubConverter.Utils
