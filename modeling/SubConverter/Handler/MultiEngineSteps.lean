import SubConverter.Handler.MultiEngineTransfers

set_option autoImplicit false

namespace SubConverter.Handler.CurlMultiEngine

namespace WorkerStage

def held : WorkerStage → List Nat
  | .finishingPruned _ cancelled => cancelled
  | .starting transfer _ => [transfer]
  | .cancellingActive _ pending => pending
  | .finishingPending pending => pending
  | _ => []

def since : WorkerStage → Nat
  | .pruneTesting now | .pruneLocked now | .finishingPruned now _ | .delaying now _ | .starting _ (some (now, _)) => now
  | _ => 0

@[simp] def phase : WorkerStage → Nat
  | .deciding => 18
  | .waiting => 17
  | .pruning => 16
  | .pruneTesting _ => 15
  | .pruneLocked _ => 14
  | .finishingPruned _ _ => 13
  | .delaying _ _ => 12
  | .dispatching => 11
  | .starting _ _ => 10
  | .performing => 9
  | .draining => 8
  | .expiring => 7
  | .finishingExpired _ => 6
  | .checking => 5
  | .cancellingActive _ _ => 4
  | .finishingPending _ => 3
  | .drainingDelayed => 2
  | .exited => 0

end WorkerStage

def placed (engine : CurlMultiEngine) (index : Nat) : Nat :=
  engine.pending.count index + engine.delayed.count index + (engine.active.map Prod.snd).count index +
    engine.worker.held.count index

def Stopped (engine : CurlMultiEngine) : Prop := engine.stopping = true ∧ engine.pending = []

def Known (limits : EngineLimits) (engine : CurlMultiEngine) : WorkerStage → Prop
  | .finishingPruned _ cancelled => ∀ index ∈ cancelled, engine.doomedAt engine.now index = true
  | .starting _ _ => engine.windowFull limits = false
  | .finishingExpired cancelled => (cancelled.map Prod.fst).Nodup ∧
    ∀ entry ∈ cancelled, entry.1 ∈ engine.active.map Prod.snd ∧ engine.doomedAt engine.now entry.1 = true
  | .cancellingActive active _ => engine.Stopped ∧ active.Perm (engine.active.map Prod.snd)
  | .finishingPending _ | .drainingDelayed => engine.Stopped ∧ engine.active = []
  | .exited => (engine.stopping = true ∨ engine.available = false) ∧ engine.pending = [] ∧ engine.delayed = [] ∧
    engine.active = []
  | _ => True

structure Staged (limits : EngineLimits) (engine : CurlMultiEngine) : Prop where
  clock : engine.worker.since ≤ engine.now
  known : engine.Known limits engine.worker

structure Pops (engine popped : CurlMultiEngine) (taken : Nat → Nat) : Prop where
  frame : popped = { engine with
    pending := popped.pending
    delayed := popped.delayed
    pendingCount := popped.pendingCount
    pendingPruneRequested := popped.pendingPruneRequested
    nextPendingDeadline := popped.nextPendingDeadline
    worker := popped.worker }
  placed : ∀ index, popped.placed index + taken index = engine.placed index
  counted : engine.pendingCount = (engine.pending.length + engine.delayed.length) % 2 ^ 64 →
    popped.pendingCount = (popped.pending.length + popped.delayed.length) % 2 ^ 64
  delayed : popped.delayed.Sublist engine.delayed

def Hopeless (engine : CurlMultiEngine) (transfer : Transfer) (code : CurlCode) : Prop :=
  engine.stopping = true ∨ engine.doomed transfer engine.now = true ∨ isRecoverableCurlError code = false

def one (index other : Nat) : Nat := if other = index then 1 else 0

inductive WorkerChange (limits : EngineLimits) (hash : Text → UInt64) (engine : CurlMultiEngine) :
    CurlMultiEngine → Prop where
  | routed {after : CurlMultiEngine} (pops : engine.Pops after fun _ => 0)
      (onward : engine.stopping = true → after.worker.phase < engine.worker.phase) : WorkerChange limits hash engine after
  | idle (draining : engine.worker = .draining) : WorkerChange limits hash engine engine
  | given {popped : CurlMultiEngine} {index : Nat} {transfer prepared : Transfer} {code : CurlCode} {input : WorkerInput}
      (pops : engine.Pops popped (one index)) (here : engine.transfers[index]? = some transfer)
      (prepares : transfer.Prepared prepared)
      (handle : ∀ easy, prepared.easy = some easy → transfer.easy = some easy ∨ engine.fresh easy = true)
      (hopeless : popped.Hopeless prepared code) :
      WorkerChange limits hash engine (popped.finish limits hash index prepared code false input)
  | ended {popped : CurlMultiEngine} {index : Nat} {transfer prepared : Transfer} {code : CurlCode} {input : WorkerInput}
      (pops : engine.Pops popped fun _ => 0) (here : engine.transfers[index]? = some transfer)
      (active : index ∈ engine.active.map Prod.snd) (prepares : transfer.Prepared prepared)
      (handle : prepared.easy = transfer.easy)
      (hopeless : (engine.worker = .draining ∧ prepared = transfer) ∨ popped.Hopeless prepared code) :
      WorkerChange limits hash engine (popped.finish limits hash index prepared code true input)
  | started {popped : CurlMultiEngine} {index easy : Nat} {transfer : Transfer}
      (pops : engine.Pops popped (one index)) (here : engine.transfers[index]? = some transfer)
      (fresh : engine.fresh easy = true) (room : engine.windowFull limits = false) (running : engine.stopping = false) :
      WorkerChange limits hash engine { popped with
        transfers := popped.transfers.set index
          { ({ transfer with retryAt := none }.configured easy) with attempts := transfer.attempts + 1 }
        active := Keyed.put easy index popped.active
        activeCount := add64 popped.activeCount 1 }

section Lists

variable {items : List Nat} {index other position : Nat}

theorem count_cons_one : (index :: items).count other = items.count other + one index other := by
  by_cases same : other = index
  · subst same
    simp [one]
  · simp [one, same, Ne.symm same]

theorem count_eraseIdx (here : items[position]? = some index) :
    (items.eraseIdx position).count other + one index other = items.count other := by
  obtain ⟨inside, rfl⟩ := List.getElem?_eq_some_iff.mp here
  rw [← count_cons_one]
  exact (List.getElem_cons_eraseIdx_perm inside).count_eq _

theorem count_filter_both (picks : Nat → Bool) :
    (items.filter fun item => !picks item).count other + (items.filter picks).count other = items.count other := by
  rw [← List.count_append]
  exact (List.perm_append_comm.trans (List.filter_append_perm picks items)).count_eq other

end Lists

section Time

variable {engine : CurlMultiEngine} {transfer : Transfer} {now later index : Nat} {deadline : Option Nat}

theorem expired_mono (ordered : now ≤ later) (past : expired deadline now = true) : expired deadline later = true := by
  cases deadline with
  | none => exact past
  | some deadline =>
    simp only [expired, Option.any_some, decide_eq_true_eq] at past ⊢
    exact le_trans past ordered

theorem expired_of_early {wait : Nat} (early : (deadline.all fun deadline => decide (now + wait < deadline)) = true) :
    expired deadline now = false := by
  cases deadline with
  | none => rfl
  | some deadline =>
    simp only [Option.all_some, decide_eq_true_eq] at early
    simp only [expired, Option.any_some, decide_eq_false_iff_not]
    omega

theorem doomed_mono (ordered : now ≤ later) (doomed : engine.doomed transfer now = true) :
    engine.doomed transfer later = true := by
  simp only [CurlMultiEngine.doomed, Bool.or_eq_true] at doomed ⊢
  exact doomed.imp_right (expired_mono ordered)

theorem doomedAt_of (here : engine.transfers[index]? = some transfer) :
    engine.doomedAt now index = engine.doomed transfer now := by
  simp [doomedAt, here]

theorem doomedAt_mono (ordered : now ≤ later) (doomed : engine.doomedAt now index = true) :
    engine.doomedAt later index = true := by
  unfold doomedAt at doomed ⊢
  cases here : engine.transfers[index]? with
  | none => simp [here] at doomed
  | some transfer =>
    rw [here, Option.any_some] at doomed
    exact doomed_mono ordered doomed

theorem retries_allowed {limits : EngineLimits} {hash : Text → UInt64} {code : CurlCode}
    (wanted : engine.retries limits hash transfer code = true) :
    (transfer.request.method = .get ∨ transfer.request.method = .head) ∧
      transfer.retryAttempts < retryLimit limits transfer := by
  simp only [retries, Bool.and_eq_true, Bool.or_eq_true, decide_eq_true_eq] at wanted
  exact ⟨wanted.1.1.1.1.1.1.2, wanted.1.1.1.1.2⟩

theorem hopeless_retries {limits : EngineLimits} {hash : Text → UInt64} {code : CurlCode}
    (hopeless : engine.Hopeless transfer code) : engine.retries limits hash transfer code = false := by
  by_contra wanted
  simp only [retries, Bool.not_eq_false, Bool.and_eq_true, Bool.not_eq_true', decide_eq_true_eq] at wanted
  obtain ⟨⟨⟨⟨⟨⟨_, recoverable⟩, _⟩, running⟩, _⟩, wanting⟩, early⟩ := wanted
  rcases hopeless with stopping | doomed | fatal
  · exact absurd (running.symm.trans stopping) (by decide)
  · simp only [CurlMultiEngine.doomed, Bool.or_eq_true, wanting, Bool.false_eq_true, false_or] at doomed
    exact absurd (doomed.symm.trans (expired_of_early early)) (by decide)
  · exact absurd (recoverable.symm.trans fatal) (by decide)

end Time

section Worker

variable {limits : EngineLimits} {hash : Text → UInt64} {engine after : CurlMultiEngine} {input : WorkerInput}
  {stage : WorkerStage}

theorem pops_stage (held : stage.held = engine.worker.held) : engine.Pops { engine with worker := stage } fun _ => 0 where
  frame := rfl
  placed := by simp [placed, held]
  counted := id
  delayed := .refl _

theorem prune_pops {now : Nat} (stage : engine.worker = .pruneLocked now) : engine.Pops (engine.prune now) fun _ => 0 where
  frame := rfl
  placed := by
    intro index
    have both := @count_filter_both engine.pending index (engine.doomedAt now)
    simp only [placed, prune, stage, WorkerStage.held, List.count_nil]
    omega
  counted := by
    intro counted
    have both := List.length_eq_length_filter_add (l := engine.pending) (engine.doomedAt now)
    simp only [prune, sub64, counted]
    omega
  delayed := .refl _

variable {popped : CurlMultiEngine} {taken : Nat → Nat} {index : Nat} {transfer prepared : Transfer}

theorem Pops.transfers (pops : engine.Pops popped taken) : popped.transfers = engine.transfers := by
  rw [pops.frame]

theorem Pops.active (pops : engine.Pops popped taken) : popped.active = engine.active := by
  rw [pops.frame]

theorem Pops.doomed (pops : engine.Pops popped taken) (now : Nat) : popped.doomed transfer now = engine.doomed transfer now := by
  rw [pops.frame]
  rfl

theorem Pops.now (pops : engine.Pops popped taken) : popped.now = engine.now := by
  rw [pops.frame]

theorem Pops.stopping (pops : engine.Pops popped taken) : popped.stopping = engine.stopping := by
  rw [pops.frame]

theorem giveUp_changes {reason : AsyncFetchFailure} (pops : engine.Pops popped (one index))
    (here : engine.transfers[index]? = some transfer) (prepares : transfer.Prepared prepared)
    (handle : prepared.easy = transfer.easy)
    (hopeless : engine.stopping = true ∨ engine.doomed prepared engine.now = true) :
    WorkerChange limits hash engine (popped.giveUp limits hash index prepared reason input) := by
  have lost : popped.Hopeless (prepared.abort reason) (doomCode reason) := by
    rcases hopeless with stopping | doomed
    · exact .inl (pops.stopping.trans stopping)
    · right
      left
      rw [pops.doomed, pops.now]
      exact doomed
  exact .given pops here (prepares.trans Transfer.abort_prepared) (fun easy handled => .inl (handle.symm.trans handled)) lost

theorem delayed_pops {position : Nat} {stage : WorkerStage} (none : engine.worker.held = [])
    (here : engine.delayed[position]? = some index) (gone : ∀ other, stage.held.count other + taken other = one index other) :
    engine.Pops { engine with
      delayed := engine.delayed.eraseIdx position, pendingCount := sub64 engine.pendingCount 1, worker := stage } taken where
  frame := rfl
  placed := by
    intro other
    have fewer := @count_eraseIdx engine.delayed index other position here
    have moved := gone other
    simp only [placed, none, List.count_nil]
    omega
  counted := by
    intro counted
    obtain ⟨inside, _⟩ := List.getElem?_eq_some_iff.mp here
    have length := List.length_eraseIdx_of_lt inside
    simp only [sub64, counted, length]
    omega
  delayed := List.eraseIdx_sublist _ _

theorem hand_pops {rest : List Nat} {stage : WorkerStage} (held : engine.worker.held = index :: rest)
    (kept : stage.held = rest) : engine.Pops { engine with worker := stage } (one index) where
  frame := rfl
  placed := by
    intro other
    have fewer := @count_cons_one rest index other
    simp only [placed, held, kept]
    omega
  counted := id
  delayed := .refl _

end Worker

end SubConverter.Handler.CurlMultiEngine
