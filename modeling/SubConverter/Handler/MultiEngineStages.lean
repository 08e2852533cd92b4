import SubConverter.Handler.MultiEngineRuns

set_option autoImplicit false

namespace SubConverter.Handler.CurlMultiEngine

section Stages

variable {limits : EngineLimits} {hash : Text → UInt64} {engine popped after : CurlMultiEngine} {index : Nat}
  {transfer prepared changed : Transfer} {code : CurlCode} {added : Bool} {input : WorkerInput} {action : EngineAction}

theorem doomedAt_set (here : popped.transfers[index]? = some transfer) (same : transfer.SameRequest changed)
    (transfers : after.transfers = popped.transfers.set index changed)
    (cancellations : after.cancellations = popped.cancellations) (now other : Nat) :
    after.doomedAt now other = popped.doomedAt now other := by
  have doomed (found : Transfer) : after.doomed found now = popped.doomed found now := by
    unfold CurlMultiEngine.doomed isCancellationRequested reason
    rw [cancellations]
  have kept : popped.doomed changed now = popped.doomed transfer now := by
    simp only [CurlMultiEngine.doomed, same.cancellation, same.deadline]
  rw [doomedAt, doomedAt, transfers, lookup_set here]
  by_cases equal : other = index
  · subst equal
    simp only [if_true, Option.any_some, doomed, kept, here]
  · simp only [equal, if_false, doomed]

structure Closes (popped after : CurlMultiEngine) (prepared : Transfer) : Prop where
  worker : after.worker = popped.worker
  now : after.now = popped.now
  stopping : after.stopping = popped.stopping
  pending : after.pending = popped.pending
  active : after.active = prepared.easy.elim popped.active fun easy => Keyed.erase easy popped.active
  doomedAt : ∀ now index, after.doomedAt now index = popped.doomedAt now index

theorem finish_closes (here : popped.transfers[index]? = some transfer) (prepares : transfer.Prepared prepared) :
    Closes popped (popped.finish limits hash index prepared code added input) prepared := by
  have finished : transfer.SameRequest (prepared.close code input.attempt).complete :=
    (@Transfer.Evolves.finished limits transfer prepared prepares code input.attempt).sameRequest
  have retried (retryAt : Nat) : transfer.SameRequest ((prepared.close code input.attempt).retry retryAt) := by
    have same := prepares.request
    constructor
    · exact (congrArg AsyncFetchRequest.deadline same : prepared.request.deadline = transfer.request.deadline)
    · exact (congrArg AsyncFetchRequest.cancellation same : prepared.request.cancellation = transfer.request.cancellation)
    · exact (congrArg AsyncFetchRequest.method same : prepared.request.method = transfer.request.method)
  rcases @Sound.finish_cases limits hash popped index prepared code input added with ⟨_, retryAt, again⟩ | completes
  · rw [again]
    exact ⟨rfl, rfl, rfl, rfl, rfl, doomedAt_set here (retried retryAt) rfl rfl⟩
  · rw [completes]
    exact ⟨rfl, rfl, rfl, rfl, rfl, doomedAt_set here finished rfl rfl⟩

theorem Staged.finished {stage : WorkerStage} (here : popped.transfers[index]? = some transfer)
    (prepares : transfer.Prepared prepared) (worker : popped.worker = stage) (clock : stage.since ≤ popped.now)
    (known : Closes popped (popped.finish limits hash index prepared code added input) prepared →
      Known limits (popped.finish limits hash index prepared code added input) stage) :
    (popped.finish limits hash index prepared code added input).Staged limits := by
  have closes := @finish_closes limits hash popped index transfer prepared code added input here prepares
  constructor
  · rwa [closes.worker, worker, closes.now]
  · rw [closes.worker, worker]
    exact known closes

theorem mem_erase_handle {easy other : Nat} (distinct : (engine.active.map Prod.fst).Nodup)
    (entry : (easy, index) ∈ engine.active) (apart : other ≠ index) (member : other ∈ engine.active.map Prod.snd) :
    other ∈ (Keyed.erase easy engine.active).map Prod.snd := by
  have kept := ((Keyed.perm_erase distinct entry).map Prod.snd).subset member
  exact (List.mem_cons.mp kept).resolve_left apart

theorem expiry_doomed {entry : Nat × AsyncFetchFailure} (found : engine.expiry index = some entry) :
    entry.1 = index ∧ engine.doomedAt engine.now index = true := by
  obtain ⟨transfer, here, chosen⟩ := Option.bind_eq_some_iff.mp found
  rw [doomedAt_of here, doomed]
  split at chosen
  next cancelled =>
    cases chosen
    exact ⟨rfl, by rw [cancelled, Bool.true_or]⟩
  split at chosen
  next past =>
    cases chosen
    exact ⟨rfl, by rw [past, Bool.or_true]⟩
  next => contradiction

theorem expiring_known {order : List (Nat × Nat)} (sound : engine.Sound limits) (same : order.Perm engine.active) :
    ((engine.expiring order).map Prod.fst).Nodup ∧ ∀ entry ∈ engine.expiring order,
      entry.1 ∈ engine.active.map Prod.snd ∧ engine.doomedAt engine.now entry.1 = true := by
  have once : (order.map Prod.snd).Nodup := by
    refine (same.map Prod.snd).nodup_iff.mpr (List.nodup_iff_count_le_one.mpr fun index => ?_)
    have single := sound.places index
    have small : (engine.unfinished index).toNat ≤ 1 := Bool.toNat_le _
    unfold CurlMultiEngine.placed at single
    omega
  have keys : ((engine.expiring order).map Prod.fst).Sublist (order.map Prod.snd) := by
    clear same once
    induction order with
    | nil => exact List.Sublist.refl _
    | cons item rest ih =>
      rw [expiring, List.filterMap_cons, List.map_cons]
      cases found : engine.expiry item.2 with
      | none => exact ih.cons _
      | some entry =>
        rw [← (expiry_doomed found).1]
        exact ih.cons_cons _
  refine ⟨once.sublist keys, fun entry member => ?_⟩
  obtain ⟨item, inside, found⟩ := List.mem_filterMap.mp member
  obtain ⟨key, doomed⟩ := expiry_doomed found
  rw [key]
  exact ⟨List.mem_map_of_mem (same.subset inside), doomed⟩

theorem finish_worker : (popped.finish limits hash index prepared code added input).worker = popped.worker ∧
    (popped.finish limits hash index prepared code added input).now = popped.now := by
  rcases @Sound.finish_cases limits hash popped index prepared code input added with ⟨_, retryAt, again⟩ | completes
  · rw [again]
    exact ⟨rfl, rfl⟩
  · rw [completes]
    exact ⟨rfl, rfl⟩

theorem startTransfer_changes (pops : engine.Pops popped (one index)) (here : engine.transfers[index]? = some transfer)
    (room : engine.windowFull limits = false)
    (started : popped.startTransfer limits hash index transfer input = some after) :
    WorkerChange limits hash engine after ∧ after.worker = popped.worker ∧ after.now = popped.now := by
  have fresh (easy : Nat) : popped.fresh easy = engine.fresh easy := by rw [fresh, pops.transfers, ← fresh]
  have unscheduled := @Transfer.unscheduled_prepared transfer
  have opened {prepared : Transfer} {code : CurlCode} {easy : Nat}
      (prepares : Transfer.Prepared { transfer with retryAt := none } prepared) (handled : prepared.easy = some easy)
      (unused : popped.fresh easy = true) (fatal : isRecoverableCurlError code = false) :
      WorkerChange limits hash engine (popped.finish limits hash index prepared code false input) := by
    refine .given pops here (unscheduled.trans prepares) (fun other same => .inr ?_) (.inr (.inr fatal))
    cases handled.symm.trans same
    exact (fresh easy).symm.trans unused
  simp only [startTransfer] at started
  split at started
  next stopping =>
    cases started
    exact ⟨giveUp_changes pops here unscheduled rfl (.inl (pops.stopping.symm.trans stopping)), finish_worker⟩
  next stopped =>
  split at started
  next cancelled =>
    cases started
    refine ⟨giveUp_changes pops here unscheduled rfl (.inr ?_), finish_worker⟩
    rw [← pops.doomed]
    simp only [doomed, cancelled, Bool.true_or]
  split at started
  next past =>
    cases started
    refine ⟨giveUp_changes pops here unscheduled rfl (.inr ?_), finish_worker⟩
    rw [pops.now] at past
    simp only [doomed, past, Bool.or_true]
  split at started
  next =>
    cases started
    exact ⟨.given pops here unscheduled (fun _ handled => .inl handled) (.inr (.inr rfl)), finish_worker⟩
  next easy _ =>
    split at started
    next unused =>
      cases started
      exact ⟨opened Transfer.unrouted_prepared rfl unused rfl, finish_worker⟩
    · contradiction
  next easy _ =>
    split at started
    next unused =>
      cases started
      exact ⟨opened Transfer.configured_prepared rfl unused rfl, finish_worker⟩
    · contradiction
  next easy _ =>
    split at started
    · contradiction
    next unused =>
      have unused : popped.fresh easy = true := by simpa using unused
      split at started
      next =>
        cases started
        have running := pops.stopping.symm.trans (Bool.eq_false_iff.mpr stopped)
        exact ⟨.started pops here ((fresh easy).symm.trans unused) room running, rfl, rfl⟩
      next =>
        cases started
        exact ⟨opened Transfer.configured_prepared rfl unused rfl, finish_worker⟩

theorem delayedTurn_changes {now position : Nat} (clock : now ≤ engine.now)
    (worker : engine.worker = .delaying now position) (found : engine.delayed[position]? = some index)
    (here : engine.transfers[index]? = some transfer) :
    WorkerChange limits hash engine (engine.delayedTurn limits hash now position index transfer input) ∧
      (engine.delayedTurn limits hash now position index transfer input).Staged limits := by
  have none : engine.worker.held = [] := by rw [worker]; rfl
  have leaves := @delayed_pops _ (one index) _ _ engine.worker none found fun other => by simp [none]
  have starts := @delayed_pops _ (fun _ => 0) _ _ (.starting index (some (now, position))) none found fun other =>
    (@count_cons_one [] index other).trans (Nat.zero_add _)
  unfold delayedTurn
  dsimp only
  split
  next over' =>
    simp only [Bool.or_eq_true] at over'
    exact ⟨giveUp_changes leaves here .refl rfl (over'.imp_right (doomed_mono clock)),
      .finished here Transfer.abort_prepared worker clock fun _ => trivial⟩
  next on =>
  have running : engine.stopping = true → False := fun stopping => on (by rw [stopping, Bool.true_or])
  split
  · exact ⟨.routed (pops_stage (by rw [worker]; rfl)) fun stopping => (running stopping).elim, clock, trivial⟩
  split
  · exact ⟨.routed (pops_stage (by rw [worker]; rfl)) fun stopping => (running stopping).elim, clock, trivial⟩
  next room => exact ⟨.routed starts fun stopping => (running stopping).elim, clock, Bool.eq_false_iff.mpr room⟩

theorem passes {before stage : WorkerStage} (worker : engine.worker = before) (held : stage.held = before.held)
    (onward : stage.phase < before.phase) (clock : stage.since ≤ engine.now)
    (known : Known limits { engine with worker := stage } stage) :
    WorkerChange limits hash engine { engine with worker := stage } ∧ Staged limits { engine with worker := stage } :=
  ⟨.routed (pops_stage (worker ▸ held)) fun _ => worker ▸ onward, clock, known⟩

theorem workerStep_changes (sound : engine.Sound limits) (staged : engine.Staged limits)
    (stepped : engine.workerStep limits hash input = some after) :
    WorkerChange limits hash engine after ∧ after.Staged limits := by
  obtain ⟨clock, known⟩ := staged
  unfold workerStep at stepped
  split at stepped
  next stage =>
    split at stepped
    all_goals
      cases stepped
      refine ⟨.routed { frame := rfl, placed := ?_, counted := id, delayed := .refl _ } fun _ => by simp [stage], le_rfl, trivial⟩
      simp [placed, stage, WorkerStage.held]
  next now stage =>
    rw [stage] at clock
    split at stepped
    · cases stepped
      exact passes stage rfl (by simp) clock trivial
    · cases stepped
      exact passes stage rfl (by simp) le_rfl trivial
  next now stage =>
    rw [stage] at clock
    cases stepped
    refine ⟨.routed (prune_pops stage) fun _ => by simp [stage, prune], clock, fun index member => ?_⟩
    have doomed := (List.mem_filter.mp member).2
    change engine.doomedAt engine.now index = true
    exact doomedAt_mono clock doomed
  next now stage =>
    cases stepped
    exact passes stage rfl (by simp) le_rfl trivial
  next now index rest stage =>
    rw [stage] at clock known
    obtain ⟨transfer, here, rfl⟩ := Option.map_eq_some_iff.mp stepped
    have doomed := known index List.mem_cons_self
    rw [doomedAt_of here] at doomed
    refine ⟨giveUp_changes (hand_pops (by rw [stage]; rfl) rfl) here .refl rfl (.inr doomed),
      .finished here Transfer.abort_prepared rfl clock fun closes other member => ?_⟩
    rw [closes.now, closes.doomedAt]
    exact known other (List.mem_cons_of_mem _ member)
  next now position stage =>
    rw [stage] at clock
    split at stepped
    · cases stepped
      exact passes stage rfl (by simp) (Nat.zero_le _) trivial
    next index found =>
      obtain ⟨transfer, here, rfl⟩ := Option.map_eq_some_iff.mp stepped
      exact delayedTurn_changes clock stage found here
  next stage =>
    split at stepped
    · cases stepped
      exact passes stage rfl (by simp) (Nat.zero_le _) trivial
    next index rest pending =>
      split at stepped
      · cases stepped
        exact passes stage rfl (by simp) (Nat.zero_le _) trivial
      next room =>
        cases stepped
        refine ⟨.routed { frame := rfl, placed := fun other => ?_, counted := fun counted => ?_, delayed := .refl _ }
          fun _ => by simp [stage], Nat.zero_le _, Bool.eq_false_iff.mpr room⟩
        · have first := @count_cons_one rest index other
          have single := @count_cons_one [] index other
          simp only [placed, stage, pending, WorkerStage.held, List.count_nil] at first single ⊢
          omega
        · simp only [sub64, counted, pending, List.length_cons]
          omega
  next index delayed stage =>
    rw [stage] at clock known
    obtain ⟨transfer, here, started⟩ := Option.bind_eq_some_iff.mp stepped
    have held : (delayed.elim WorkerStage.dispatching fun place => .delaying place.1 place.2).held = [] := by
      cases delayed <;> rfl
    obtain ⟨changed, worker, now⟩ := startTransfer_changes (hand_pops (by rw [stage]; rfl) held) here known started
    refine ⟨changed, ?_, ?_⟩
    · rw [worker, now]
      cases delayed with
      | none => exact Nat.zero_le _
      | some place => exact clock
    · rw [worker]
      cases delayed <;> trivial
  next stage =>
    cases stepped
    exact passes stage rfl (by simp) (Nat.zero_le _) trivial
  next stage =>
    rw [stage] at clock
    split at stepped
    · cases stepped
      exact passes stage rfl (by simp) (Nat.zero_le _) trivial
    next easy code _ =>
      split at stepped
      · cases stepped
        exact ⟨.idle stage, by rw [stage]; exact clock, by rw [stage]; trivial⟩
      next index found =>
        obtain ⟨transfer, here, rfl⟩ := Option.map_eq_some_iff.mp stepped
        exact ⟨.ended (pops_stage rfl) here (List.mem_map_of_mem (Keyed.mem_of_find found)) .refl rfl (.inl ⟨stage, rfl⟩),
          .finished here .refl stage clock fun _ => trivial⟩
  next stage =>
    split at stepped
    next same =>
      cases stepped
      exact passes stage rfl (by simp) (Nat.zero_le _) (expiring_known sound same)
    · contradiction
  next stage =>
    cases stepped
    exact passes stage rfl (by simp) (Nat.zero_le _) trivial
  next index reason rest stage =>
    rw [stage] at clock known
    obtain ⟨transfer, here, rfl⟩ := Option.map_eq_some_iff.mp stepped
    obtain ⟨once, entries⟩ := known
    obtain ⟨active, doomed⟩ := entries (index, reason) List.mem_cons_self
    rw [doomedAt_of here] at doomed
    obtain ⟨easy, entry⟩ : ∃ easy, (easy, index) ∈ engine.active := by simpa using active
    have handled : (transfer.abort reason).easy = some easy := (sound.handles here easy).mpr entry
    rw [List.map_cons, List.nodup_cons] at once
    refine ⟨.ended (pops_stage (by rw [stage]; rfl)) here active Transfer.abort_prepared rfl (.inr (.inr (.inl doomed))),
      .finished here Transfer.abort_prepared rfl clock fun closes => ⟨once.2, fun other member => ?_⟩⟩
    obtain ⟨active, doomed⟩ := entries other (List.mem_cons_of_mem _ member)
    rw [closes.now, closes.doomedAt, closes.active, handled, Option.elim_some]
    have apart : other.1 ≠ index := fun equal => once.1 (List.mem_map.mpr ⟨other, member, equal⟩)
    exact ⟨mem_erase_handle sound.distinct entry apart active, doomed⟩
  next stage =>
    split at stepped
    next stopping =>
      split at stepped
      next same =>
        cases stepped
        refine ⟨.routed { frame := rfl, placed := fun other => ?_, counted := fun counted => ?_, delayed := .refl _ }
          fun _ => by simp [stage], Nat.zero_le _, ⟨stopping, rfl⟩, same.map Prod.snd⟩
        · simp only [placed, stage, WorkerStage.held, List.count_nil]
          omega
        · simp only [sub64, counted, List.length_nil]
          omega
      · contradiction
    next running =>
      cases stepped
      exact ⟨.routed (pops_stage (by rw [stage]; rfl)) fun stopping => absurd stopping running, Nat.zero_le _, trivial⟩
  next pending stage =>
    rw [stage] at known
    cases stepped
    exact passes stage rfl (by simp) (Nat.zero_le _) ⟨known.1, List.map_eq_nil_iff.mp (List.nil_perm.mp known.2)⟩
  next index rest pending stage =>
    rw [stage] at clock known
    obtain ⟨transfer, here, rfl⟩ := Option.map_eq_some_iff.mp stepped
    obtain ⟨⟨stopping, emptied⟩, same⟩ := known
    have active := same.subset List.mem_cons_self
    obtain ⟨easy, entry⟩ : ∃ easy, (easy, index) ∈ engine.active := by simpa using active
    have handled : (transfer.abort .shutdown).easy = some easy := (sound.handles here easy).mpr entry
    refine ⟨.ended (pops_stage (by rw [stage]; rfl)) here active Transfer.abort_prepared rfl (.inr (.inl stopping)),
      .finished here Transfer.abort_prepared rfl clock fun closes =>
        ⟨⟨closes.stopping.trans stopping, closes.pending.trans emptied⟩, ?_⟩⟩
    rw [closes.active, handled, Option.elim_some]
    exact (same.trans ((Keyed.perm_erase sound.distinct entry).map Prod.snd)).cons_inv
  next stage =>
    rw [stage] at known
    cases stepped
    exact passes stage rfl (by simp) (Nat.zero_le _) known
  next index rest stage =>
    rw [stage] at clock known
    obtain ⟨transfer, here, rfl⟩ := Option.map_eq_some_iff.mp stepped
    obtain ⟨⟨stopping, emptied⟩, none⟩ := known
    refine ⟨giveUp_changes (hand_pops (by rw [stage]; rfl) rfl) here .refl rfl (.inl stopping),
      .finished here Transfer.abort_prepared rfl clock fun closes =>
        ⟨⟨closes.stopping.trans stopping, closes.pending.trans emptied⟩, ?_⟩⟩
    rw [closes.active, none]
    cases (transfer.abort .shutdown).easy <;> rfl
  next stage =>
    rw [stage] at clock known
    obtain ⟨⟨stopping, emptied⟩, none⟩ := known
    split at stepped
    next drained =>
      cases stepped
      exact passes stage rfl (by simp) (Nat.zero_le _) ⟨.inl stopping, emptied, drained, none⟩
    next index rest delayed =>
      obtain ⟨transfer, here, rfl⟩ := Option.map_eq_some_iff.mp stepped
      have found : engine.delayed[0]? = some index := by simp [delayed]
      have pops := @delayed_pops _ (one index) _ _ engine.worker (by rw [stage]; rfl) found fun other => by
        simp [stage, WorkerStage.held]
      simp only [delayed, List.eraseIdx_cons_zero] at pops
      refine ⟨giveUp_changes pops here .refl rfl (.inl stopping),
        .finished here Transfer.abort_prepared stage clock fun closes =>
          ⟨⟨closes.stopping.trans stopping, closes.pending.trans emptied⟩, ?_⟩⟩
      rw [closes.active, none]
      cases (transfer.abort .shutdown).easy <;> rfl
  next stage =>
    cases stepped
    split
    · exact passes stage rfl (by simp) (Nat.zero_le _) trivial
    · exact passes stage rfl (by simp) (Nat.zero_le _) trivial
  next stage =>
    cases stepped
    exact passes stage rfl (by simp) (Nat.zero_le _) trivial
  next => contradiction

structure Between (engine after : CurlMultiEngine) : Prop where
  worker : after.worker = engine.worker
  now : engine.now ≤ after.now
  doomedAt : ∀ index, engine.doomedAt engine.now index = true → after.doomedAt after.now index = true
  active : after.active = engine.active
  delayed : after.delayed = engine.delayed
  pending : engine.stopping = true ∨ engine.available = false → after.pending = engine.pending
  stopping : engine.stopping = true → after.stopping = true
  available : engine.available = false → after.available = false

theorem Between.staged (between : Between engine after) (staged : engine.Staged limits) : after.Staged limits where
  clock := by
    rw [between.worker]
    exact le_trans staged.clock between.now
  known := by
    have known := staged.known
    have stopped (stopped : engine.Stopped) : after.Stopped :=
      ⟨between.stopping stopped.1, (between.pending (.inl stopped.1)).trans stopped.2⟩
    rw [between.worker]
    cases stage : engine.worker with
    | finishingPruned now cancelled =>
      rw [stage] at known
      exact fun index member => between.doomedAt index (known index member)
    | starting index delayed =>
      rw [stage] at known
      change after.windowFull limits = false
      rw [windowFull, between.active]
      exact known
    | finishingExpired cancelled =>
      rw [stage] at known
      refine ⟨known.1, fun entry member => ?_⟩
      rw [between.active]
      exact (known.2 entry member).imp_right (between.doomedAt _)
    | cancellingActive active pending =>
      rw [stage] at known
      refine ⟨stopped known.1, ?_⟩
      rw [between.active]
      exact known.2
    | finishingPending pending =>
      rw [stage] at known
      exact ⟨stopped known.1, between.active.trans known.2⟩
    | drainingDelayed =>
      rw [stage] at known
      exact ⟨stopped known.1, between.active.trans known.2⟩
    | exited =>
      rw [stage] at known
      obtain ⟨closed, pending, delayed, active⟩ := known
      exact ⟨closed.imp between.stopping between.available, (between.pending closed).trans pending,
        between.delayed.trans delayed, between.active.trans active⟩
    | _ => trivial

theorem doomedAt_kept (same : ∀ transfer, engine.transfers[index]? = some transfer → after.transfers[index]? = some transfer)
    (tokens : ∀ token, engine.isCancellationRequested token = true → after.isCancellationRequested token = true)
    (now : engine.now ≤ after.now) (doomed : engine.doomedAt engine.now index = true) :
    after.doomedAt after.now index = true := by
  unfold doomedAt at doomed ⊢
  cases here : engine.transfers[index]? with
  | none => simp [here] at doomed
  | some transfer =>
    rw [here, Option.any_some] at doomed
    rw [same transfer here, Option.any_some]
    simp only [CurlMultiEngine.doomed, Bool.or_eq_true] at doomed ⊢
    exact doomed.imp (tokens _) (expired_mono now)

theorem Quiet.between (quiet : Quiet engine after) : Between engine after := by
  obtain ⟨frame, now, tokens, stopping, available⟩ := quiet
  have same (index : Nat) (transfer : Transfer) (here : engine.transfers[index]? = some transfer) :
      after.transfers[index]? = some transfer := by rwa [frame]
  exact ⟨by rw [frame], now, fun index => doomedAt_kept (same index) tokens now, by rw [frame], by rw [frame],
    fun _ => by rw [frame], stopping, available⟩

theorem submit_between {request : AsyncFetchRequest} {sizeLimit : Int} :
    Between engine (engine.submit request sizeLimit) := by
  have same {fresh : Transfer} (index : Nat) (transfer : Transfer) (here : engine.transfers[index]? = some transfer) :
      (engine.transfers ++ [fresh])[index]? = some transfer := by
    rwa [lookup_concat, if_neg (Nat.ne_of_lt (List.getElem?_eq_some_iff.mp here).1)]
  unfold CurlMultiEngine.submit
  dsimp only
  split
  · exact ⟨rfl, le_rfl, fun index => doomedAt_kept (same index) (fun _ => id) le_rfl, rfl, rfl, fun _ => rfl, id, id⟩
  next open' =>
    refine ⟨rfl, le_rfl, fun index => doomedAt_kept (same index) (fun _ => id) le_rfl, rfl, rfl, fun closed => ?_, id, id⟩
    rcases closed with stopping | unavailable
    · exact absurd (by rw [stopping, Bool.true_or]) open'
    · exact absurd (by rw [unavailable, Bool.not_false, Bool.or_true]) open'

end Stages

end SubConverter.Handler.CurlMultiEngine
