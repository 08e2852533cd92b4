import SubConverter.Handler.MultiEngineSteps

set_option autoImplicit false

namespace SubConverter.Handler.CurlMultiEngine

def unfinished (engine : CurlMultiEngine) (index : Nat) : Bool :=
  engine.transfers[index]?.any fun transfer => !transfer.completed

structure Sound (limits : EngineLimits) (engine : CurlMultiEngine) : Prop where
  places : ∀ index, engine.placed index = (engine.unfinished index).toNat
  handles : ∀ {index : Nat} {transfer : Transfer}, engine.transfers[index]? = some transfer →
    ∀ easy, transfer.easy = some easy ↔ (easy, index) ∈ engine.active
  distinct : (engine.active.map Prod.fst).Nodup
  pending : engine.pendingCount = (engine.pending.length + engine.delayed.length) % 2 ^ 64
  active : engine.activeCount = engine.active.length % 2 ^ 64
  fits : ∀ {index : Nat} {transfer : Transfer}, engine.transfers[index]? = some transfer → transfer.Fits limits
  window : limits.handleWindow ≠ 0 → engine.active.length ≤ limits.handleWindow

structure Quiet (engine after : CurlMultiEngine) : Prop where
  frame : after = { engine with
    available := after.available
    stopping := after.stopping
    pendingPruneRequested := after.pendingPruneRequested
    now := after.now
    cancellations := after.cancellations
    outboundFetchShutdownRequested := after.outboundFetchShutdownRequested
    joining := after.joining
    joined := after.joined
    shutdowns := after.shutdowns }
  now : engine.now ≤ after.now
  tokens : ∀ token, engine.isCancellationRequested token = true → after.isCancellationRequested token = true
  stopping : engine.stopping = true → after.stopping = true
  available : engine.available = false → after.available = false

namespace Sound

variable {limits : EngineLimits} {hash : Text → UInt64} {engine popped after : CurlMultiEngine} {taken : Nat → Nat}
  {index easy : Nat} {transfer prepared changed : Transfer} {code : CurlCode} {input : WorkerInput}

theorem unfinished_of (placed : engine.placed index ≠ 0) (sound : engine.Sound limits) :
    ∃ transfer, engine.transfers[index]? = some transfer ∧ transfer.completed = false := by
  have unfinished : engine.unfinished index = true := by
    by_contra finished
    exact placed ((sound.places index).trans (by simp [finished]))
  simpa [CurlMultiEngine.unfinished, Option.any_eq_true] using unfinished

theorem active_placed (member : index ∈ engine.active.map Prod.snd) : engine.placed index ≠ 0 := by
  have positive := List.count_pos_iff.mpr member
  unfold placed
  omega

theorem open_of (sound : engine.Sound limits) (here : engine.transfers[index]? = some transfer)
    (placed : engine.placed index ≠ 0) : transfer.completed = false := by
  obtain ⟨found, there, pending⟩ := unfinished_of placed sound
  cases here.symm.trans there
  exact pending

theorem active_handle (sound : engine.Sound limits) (member : (easy, index) ∈ engine.active) :
    ∃ transfer, engine.transfers[index]? = some transfer ∧ transfer.easy = some easy := by
  obtain ⟨transfer, here, _⟩ := unfinished_of (active_placed (List.mem_map_of_mem member)) sound
  exact ⟨transfer, here, (sound.handles here easy).mpr member⟩

theorem fresh_absent (sound : engine.Sound limits) (fresh : engine.fresh easy = true) :
    easy ∉ engine.active.map Prod.fst := by
  intro member
  obtain ⟨⟨_, index⟩, entry, rfl⟩ := List.mem_map.mp member
  obtain ⟨transfer, here, handled⟩ := sound.active_handle entry
  have unused := List.all_eq_true.mp fresh transfer (List.mem_of_getElem? here)
  simp [handled] at unused

theorem unhandled (sound : engine.Sound limits) (here : engine.transfers[index]? = some transfer)
    (outside : index ∉ engine.active.map Prod.snd) : transfer.easy = none := by
  cases handled : transfer.easy with
  | none => rfl
  | some easy => exact absurd (List.mem_map_of_mem ((sound.handles here easy).mp handled)) outside

theorem outside_of_taken (sound : engine.Sound limits) (pops : engine.Pops popped (one index)) :
    index ∉ engine.active.map Prod.snd := by
  intro member
  have positive := List.count_pos_iff.mpr member
  have moved := pops.placed index
  have single := sound.places index
  have small : (engine.unfinished index).toNat ≤ 1 := Bool.toNat_le _
  have inside : (popped.active.map Prod.snd).count index ≤ popped.placed index := by
    unfold placed
    omega
  rw [pops.active] at inside
  simp only [one, if_true] at moved
  omega

theorem taken_placed (pops : engine.Pops popped (one index)) : engine.placed index ≠ 0 := by
  have moved := pops.placed index
  simp only [one, if_true] at moved
  omega

theorem routed (sound : engine.Sound limits) (pops : engine.Pops after fun _ => 0) : after.Sound limits where
  places := by
    intro index
    rw [unfinished, pops.transfers, ← unfinished, ← sound.places, ← pops.placed index, Nat.add_zero]
  handles := by
    rw [pops.transfers, pops.active]
    exact sound.handles
  distinct := by
    rw [pops.active]
    exact sound.distinct
  pending := pops.counted sound.pending
  active := by
    rw [pops.frame]
    exact sound.active
  fits := by
    rw [pops.transfers]
    exact sound.fits
  window := by
    rw [pops.active]
    exact sound.window

theorem finish_cases {added : Bool} :
    (popped.retries limits hash prepared code = true ∧ ∃ retryAt, popped.finish limits hash index prepared code added input =
      { popped with
        activeCount := if added then sub64 popped.activeCount 1 else popped.activeCount
        active := prepared.easy.elim popped.active fun easy => Keyed.erase easy popped.active
        transfers := popped.transfers.set index ((prepared.close code input.attempt).retry retryAt)
        delayed := popped.delayed ++ [index]
        pendingCount := add64 popped.pendingCount 1 }) ∨
    popped.finish limits hash index prepared code added input =
      { popped with
        activeCount := if added then sub64 popped.activeCount 1 else popped.activeCount
        active := prepared.easy.elim popped.active fun easy => Keyed.erase easy popped.active
        transfers := popped.transfers.set index (prepared.close code input.attempt).complete } := by
  by_cases wanted : (popped.retries limits hash prepared code && input.allocated) = true
  · exact .inl ⟨(Bool.and_eq_true_iff.mp wanted).1, _, if_pos wanted⟩
  · exact .inr (if_neg wanted)

theorem finish_hopeless {added : Bool} (hopeless : popped.Hopeless prepared code) :
    popped.finish limits hash index prepared code added input =
      { popped with
        activeCount := if added then sub64 popped.activeCount 1 else popped.activeCount
        active := prepared.easy.elim popped.active fun easy => Keyed.erase easy popped.active
        transfers := popped.transfers.set index (prepared.close code input.attempt).complete } := by
  rcases @finish_cases limits hash popped index prepared code input added with ⟨wanted, _⟩ | completes
  · rw [hopeless_retries hopeless] at wanted
    exact absurd wanted Bool.false_ne_true
  · exact completes

theorem completed_complete : (prepared.close code input.attempt).complete.completed = true := by
  unfold Transfer.complete
  split
  · assumption
  · rfl

theorem easy_complete : (prepared.close code input.attempt).complete.easy = none := by
  unfold Transfer.complete
  split <;> rfl

theorem count_erase_handle (distinct : (engine.active.map Prod.fst).Nodup) (entry : (easy, index) ∈ engine.active)
    (other : Nat) : (engine.active.map Prod.snd).count other =
      ((Keyed.erase easy engine.active).map Prod.snd).count other + one index other := by
  rw [((Keyed.perm_erase distinct entry).map Prod.snd).count_eq]
  exact count_cons_one

structure Rehandles (limits : EngineLimits) (engine after : CurlMultiEngine) (index : Nat) (changed : Transfer) : Prop where
  handles : ∀ other easy, (easy, other) ∈ after.active ↔
    if other = index then changed.easy = some easy else (easy, other) ∈ engine.active
  distinct : (after.active.map Prod.fst).Nodup
  counted : after.activeCount = after.active.length % 2 ^ 64
  window : limits.handleWindow ≠ 0 → after.active.length ≤ limits.handleWindow

theorem updated (sound : engine.Sound limits) (here : engine.transfers[index]? = some transfer)
    (unfinished : transfer.completed = false) (evolves : transfer.Evolves limits changed)
    (transfers : after.transfers = engine.transfers.set index changed)
    (placed : ∀ other, after.placed other + (if changed.completed then one index other else 0) = engine.placed other)
    (pending : after.pendingCount = (after.pending.length + after.delayed.length) % 2 ^ 64)
    (rehandles : Rehandles limits engine after index changed) : after.Sound limits where
  places := by
    intro other
    have moved := placed other
    have single := sound.places other
    rw [CurlMultiEngine.unfinished, transfers, lookup_set here]
    by_cases equal : other = index
    · subst equal
      have before : engine.unfinished other = true := by simp [CurlMultiEngine.unfinished, here, unfinished]
      rw [before, Bool.toNat_true] at single
      cases finished : changed.completed with
      | true =>
        simp only [finished, if_true, one] at moved
        simp only [if_true, Option.any_some, finished, Bool.not_true, Bool.toNat_false]
        omega
      | false =>
        simp only [finished, Bool.false_eq_true, if_false] at moved
        simp only [if_true, Option.any_some, finished, Bool.not_false, Bool.toNat_true]
        omega
    · rw [if_neg equal]
      simp only [one, equal, if_false, ite_self, Nat.add_zero] at moved
      rw [moved, single, CurlMultiEngine.unfinished]
  handles := by
    intro other found there easy
    rw [transfers, lookup_set here] at there
    rw [rehandles.handles]
    by_cases equal : other = index
    · rw [if_pos equal] at there ⊢
      cases there
      rfl
    · rw [if_neg equal] at there ⊢
      exact sound.handles there easy
  distinct := rehandles.distinct
  pending := pending
  active := rehandles.counted
  fits := by
    intro other found there
    rw [transfers, lookup_set here] at there
    split at there
    · cases there
      exact evolves.fits unfinished (sound.fits here)
    · exact sound.fits there
  window := rehandles.window

theorem rehandles_same (sound : engine.Sound limits) (here : engine.transfers[index]? = some transfer)
    (active : after.active = engine.active) (count : after.activeCount = engine.activeCount)
    (easy : changed.easy = transfer.easy) : Rehandles limits engine after index changed where
  handles := by
    intro other key
    rw [active]
    split
    next equal =>
      rw [easy, equal]
      exact (sound.handles here key).symm
    next => rfl
  distinct := by
    rw [active]
    exact sound.distinct
  counted := by
    rw [active, count]
    exact sound.active
  window := by
    rw [active]
    exact sound.window

theorem rehandles_erase (sound : engine.Sound limits) (entry : (easy, index) ∈ engine.active)
    (active : after.active = Keyed.erase easy engine.active) (count : after.activeCount = sub64 engine.activeCount 1)
    (closed : changed.easy = none) : Rehandles limits engine after index changed := by
  have moved := Keyed.perm_erase sound.distinct entry
  have length : engine.active.length = (Keyed.erase easy engine.active).length + 1 := moved.length_eq
  constructor
  case handles =>
    intro other key
    have member : (key, other) ∈ engine.active ↔ (key, other) = (easy, index) ∨ (key, other) ∈ Keyed.erase easy engine.active :=
      moved.mem_iff.trans List.mem_cons
    rw [active]
    split
    next equal =>
      subst equal
      obtain ⟨transfer, here, handled⟩ := sound.active_handle entry
      rw [closed]
      refine ⟨fun inside => ?_, fun impossible => absurd impossible.symm (Option.some_ne_none key)⟩
      have same := handled.symm.trans ((sound.handles here key).mpr (member.mpr (.inr inside)))
      simp [Keyed.erase, Option.some.inj same] at inside
    next differ => simp [member, differ]
  case distinct =>
    rw [active]
    exact (List.nodup_cons.mp ((moved.map Prod.fst).nodup_iff.mp sound.distinct)).2
  case counted =>
    have counted := sound.active
    simp only [count, active, sub64, counted]
    omega
  case window =>
    intro limited
    have bounded := sound.window limited
    rw [active]
    omega

theorem given (sound : engine.Sound limits) (pops : engine.Pops popped (one index))
    (here : engine.transfers[index]? = some transfer) (prepares : transfer.Prepared prepared)
    (handle : ∀ easy, prepared.easy = some easy → transfer.easy = some easy ∨ engine.fresh easy = true)
    (hopeless : popped.Hopeless prepared code) :
    (popped.finish limits hash index prepared code false input).Sound limits := by
  have outside := sound.outside_of_taken pops
  have unhandled := sound.unhandled here outside
  have erased : (prepared.easy.elim popped.active fun easy => Keyed.erase easy popped.active) = engine.active := by
    rw [pops.active]
    cases handled : prepared.easy with
    | none => rfl
    | some easy =>
      have fresh := (handle easy handled).resolve_left (by simp [unhandled])
      apply List.filter_eq_self.mpr
      intro entry member
      have absent := sound.fresh_absent fresh
      have apart : entry.1 ≠ easy := fun equal => absent (equal ▸ List.mem_map_of_mem member)
      simpa using apart
  have there : popped.transfers[index]? = some transfer := by rwa [pops.transfers]
  have evolves : transfer.Evolves limits (prepared.close code input.attempt).complete := .finished prepares code input.attempt
  rw [finish_hopeless hopeless, erased]
  simp only [Bool.false_eq_true, if_false]
  refine sound.updated here (sound.open_of here (taken_placed pops)) evolves (by rw [← pops.transfers]) (fun other => ?_)
    (pops.counted sound.pending) (sound.rehandles_same here rfl (by rw [pops.frame]) (easy_complete.trans unhandled.symm))
  rw [completed_complete, if_pos rfl, ← pops.placed other]
  simp only [CurlMultiEngine.placed, pops.active]

theorem ended (sound : engine.Sound limits) (pops : engine.Pops popped fun _ => 0)
    (here : engine.transfers[index]? = some transfer) (active : index ∈ engine.active.map Prod.snd)
    (prepares : transfer.Prepared prepared) (handle : prepared.easy = transfer.easy)
    (hopeless : prepared = transfer ∨ popped.Hopeless prepared code) :
    (popped.finish limits hash index prepared code true input).Sound limits := by
  have before := sound.routed pops
  rw [← pops.transfers] at here
  rw [← pops.active] at active
  have unfinished := before.open_of here (active_placed active)
  obtain ⟨easy, entry⟩ : ∃ easy, (easy, index) ∈ popped.active := by simpa using active
  have handled := (before.handles here easy).mpr entry
  have erased : (prepared.easy.elim popped.active fun easy => Keyed.erase easy popped.active) =
      Keyed.erase easy popped.active := by rw [handle, handled, Option.elim_some]
  have counts := count_erase_handle before.distinct entry
  rcases @finish_cases limits hash popped index prepared code input true with ⟨wanted, retryAt, retried⟩ | completes
  · rw [retried, erased, if_pos rfl]
    have same : prepared = transfer := by
      rcases hopeless with same | hopeless
      · exact same
      · rw [hopeless_retries hopeless] at wanted
        exact absurd wanted Bool.false_ne_true
    subst same
    obtain ⟨method, limit⟩ := retries_allowed wanted
    have evolves : prepared.Evolves limits ((prepared.close code input.attempt).retry retryAt) :=
      .retried code input.attempt _ (by rw [handled]; exact Option.some_ne_none _) method limit
    refine before.updated here unfinished evolves rfl (fun other => ?_) ?_
      (before.rehandles_erase entry rfl rfl rfl)
    · have moved := counts other
      have appended := @count_cons_one [] index other
      have still : ((prepared.close code input.attempt).retry retryAt).completed = false := unfinished
      simp only [still, Bool.false_eq_true, if_false, CurlMultiEngine.placed, List.count_append, appended, List.count_nil]
      omega
    · have counted := before.pending
      simp only [add64, counted, List.length_append, List.length_cons, List.length_nil]
      omega
  · rw [completes, erased, if_pos rfl]
    have evolves : transfer.Evolves limits (prepared.close code input.attempt).complete :=
      .finished prepares code input.attempt
    refine before.updated here unfinished evolves rfl (fun other => ?_) before.pending
      (before.rehandles_erase entry rfl rfl easy_complete)
    have moved := counts other
    simp only [completed_complete, if_true, CurlMultiEngine.placed]
    omega

theorem started (sound : engine.Sound limits) (pops : engine.Pops popped (one index))
    (here : engine.transfers[index]? = some transfer) (fresh : engine.fresh easy = true)
    (room : engine.windowFull limits = false) :
    Sound limits { popped with
      transfers := popped.transfers.set index
        { ({ transfer with retryAt := none }.configured easy) with attempts := transfer.attempts + 1 }
      active := Keyed.put easy index popped.active
      activeCount := add64 popped.activeCount 1 } := by
  have outside := sound.outside_of_taken pops
  have absent := sound.fresh_absent fresh
  have there : popped.transfers[index]? = some transfer := by rwa [pops.transfers]
  have unfinished := sound.open_of here (taken_placed pops)
  have evolves : transfer.Evolves limits _ := .started easy (sound.unhandled here outside)
  rw [pops.active, Keyed.put_of_not_mem absent]
  refine sound.updated here unfinished evolves (by rw [← pops.transfers]) (fun other => ?_) (pops.counted sound.pending) ?_
  · have moved := pops.placed other
    have appended := @count_cons_one [] index other
    have still : ({ transfer with retryAt := none }.configured easy).completed = false := unfinished
    simp only [still, Bool.false_eq_true, if_false, CurlMultiEngine.placed, List.map_append, List.map_cons, List.map_nil,
      List.count_append, appended, List.count_nil, pops.active] at moved ⊢
    omega
  constructor
  case handles =>
    intro other key
    rw [List.mem_append, List.mem_singleton, Prod.mk.injEq]
    split
    next equal =>
      subst equal
      have inside : (key, other) ∉ engine.active := fun member => outside (List.mem_map_of_mem member)
      simp only [inside, false_or, and_true]
      exact ⟨fun same => congrArg some same.symm, fun same => (Option.some.inj same).symm⟩
    next differ => simp only [differ, and_false, or_false]
  case distinct =>
    rw [List.map_append, List.nodup_append]
    refine ⟨sound.distinct, List.nodup_singleton _, ?_⟩
    rintro key member _ single rfl
    cases List.mem_singleton.mp single
    exact absent member
  case counted =>
    have same : popped.activeCount = engine.activeCount := by rw [pops.frame]
    have counted := sound.active
    simp only [same, add64, counted, List.length_append, List.length_cons, List.length_nil]
    omega
  case window =>
    intro limited
    simp only [windowFull, Bool.and_eq_false_iff, decide_eq_false_iff_not, not_not, not_le] at room
    have small := room.resolve_left limited
    simp only [List.length_append, List.length_cons, List.length_nil]
    omega

theorem worker_changed (sound : engine.Sound limits) (changed : WorkerChange limits hash engine after) :
    after.Sound limits := by
  cases changed with
  | routed pops onward => exact sound.routed pops
  | idle draining => exact sound
  | given pops here prepares handle hopeless => exact sound.given pops here prepares handle hopeless
  | ended pops here active prepares handle hopeless =>
    exact sound.ended pops here active prepares handle (hopeless.imp_left And.right)
  | started pops here fresh room running => exact sound.started pops here fresh room

theorem called {callback : Callback} (sound : engine.Sound limits) (found : Keyed.find easy engine.active = some index)
    (here : engine.transfers[index]? = some transfer) :
    Sound limits { engine with transfers := engine.transfers.set index (engine.called transfer callback) } := by
  have member := Keyed.mem_of_find found
  have handled := (sound.handles here easy).mpr member
  have evolves : transfer.Evolves limits (engine.called transfer callback) :=
    .called engine callback (by rw [handled]; exact Option.some_ne_none _)
  have unfinished := sound.open_of here (active_placed (List.mem_map_of_mem member))
  obtain ⟨same, completed, _⟩ := @Transfer.called_kept transfer engine callback
  refine sound.updated here unfinished evolves rfl (fun other => ?_) sound.pending
    (sound.rehandles_same here rfl rfl same)
  rw [completed, unfinished, if_neg Bool.false_ne_true]
  rfl

theorem carry (sound : engine.Sound limits) (quiet : Quiet engine after) : after.Sound limits := by
  rw [quiet.frame]
  exact ⟨sound.places, sound.handles, sound.distinct, sound.pending, sound.active, sound.fits, sound.window⟩

theorem added {fresh : Transfer} (sound : engine.Sound limits) (transfers : after.transfers = engine.transfers ++ [fresh])
    (none : fresh.easy = none) (fits : fresh.Fits limits) (active : after.active = engine.active)
    (count : after.activeCount = engine.activeCount)
    (placed : ∀ other, after.placed other =
      engine.placed other + if fresh.completed then 0 else one engine.transfers.length other)
    (pending : after.pendingCount = (after.pending.length + after.delayed.length) % 2 ^ 64) : after.Sound limits where
  places := by
    intro other
    have single := sound.places other
    rw [placed, single, CurlMultiEngine.unfinished, CurlMultiEngine.unfinished, transfers, lookup_concat]
    by_cases equal : other = engine.transfers.length
    · rw [if_pos equal, equal, List.getElem?_eq_none le_rfl, one]
      cases finished : fresh.completed <;> simp [finished]
    · simp [equal, one]
  handles := by
    intro other found here easy
    rw [transfers, lookup_concat] at here
    rw [active]
    split at here
    next equal =>
      cases here
      have nowhere : (easy, other) ∉ engine.active := by
        intro member
        obtain ⟨old, there, _⟩ := sound.active_handle member
        exact absurd (List.getElem?_eq_some_iff.mp there).1 (Nat.not_lt_of_ge (Nat.le_of_eq equal.symm))
      simp [none, nowhere]
    next => exact sound.handles here easy
  distinct := active ▸ sound.distinct
  pending := pending
  active := by
    rw [count, active]
    exact sound.active
  fits := by
    intro other found here
    rw [transfers, lookup_concat] at here
    split at here
    · cases here
      exact fits
    · exact sound.fits here
  window := active ▸ sound.window

theorem submit {request : AsyncFetchRequest} {sizeLimit : Int} (sound : engine.Sound limits) :
    (engine.submit request sizeLimit).Sound limits := by
  unfold CurlMultiEngine.submit
  dsimp only
  split
  next =>
    refine sound.added rfl rfl ?_ rfl rfl (fun other => rfl) sound.pending
    constructor <;> simp [Transfer.complete]
    split <;> simp
  next =>
    refine sound.added rfl rfl ?_ rfl rfl (fun other => ?_) ?_
    · constructor <;> simp
    · have appended := @count_cons_one [] engine.transfers.length other
      simp only [CurlMultiEngine.placed, List.count_append, appended, List.count_nil, Bool.false_eq_true, if_false]
      omega
    · have counted := sound.pending
      simp only [add64, counted, List.length_append, List.length_cons, List.length_nil]
      omega

end Sound

end SubConverter.Handler.CurlMultiEngine
