import SubConverter.Handler.FetchOperations

set_option autoImplicit false

namespace SubConverter.Handler

section Holders

variable {state next : FetchState} {call changed : FetchCall} {completion moved : Completion} {index operation other : Nat}
  {found : CacheFetchOperation} {operations : List CacheFetchOperation}
  {change : CacheFetchOperation → CacheFetchOperation}

def FetchStage.early : FetchStage → Bool
  | .entered | .looking | .attaching _ _ | .erasing _ | .joining _ _ _ => true
  | _ => false

def FetchStage.holds (operation : Nat) : FetchStage → Nat
  | .joining mine _ attached | .dropping mine _ attached | .transferring mine attached | .waiting mine _ attached
  | .cleaning mine attached | .releasing mine attached => if mine = operation ∧ attached then 1 else 0
  | _ => 0

def FetchCall.holds (operation : Nat) (call : FetchCall) : Nat :=
  call.stage.holds operation + if call.operation = some operation ∧ call.operationAttached then 1 else 0

def Completion.holds (operation : Nat) (completion : Completion) : Nat :=
  match completion.stage with
  | .unsubscribing mine attached => if mine = operation ∧ attached then 1 else 0
  | .releasing mine => if mine = operation then 1 else 0
  | _ => 0

def consumersIn (operations : List CacheFetchOperation) (operation : Nat) : Nat :=
  (operations[operation]?.map CacheFetchOperation.consumers).getD 0

theorem consumersIn_modify (same : ∀ found, (change found).consumers = found.consumers) :
    consumersIn (operations.modify operation change) other = consumersIn operations other := by
  simp only [consumersIn, List.getElem?_modify]
  split_ifs
  next => cases operations[other]? <;> simp [same]
  next => simp

theorem consumersIn_attach (there : operations[operation]? = some found) (attached : found.attachResult = .attached) :
    consumersIn (operations.modify operation .attachConsumer) other =
      consumersIn operations other + if operation = other then 1 else 0 := by
  simp only [consumersIn, List.getElem?_modify]
  split_ifs with here
  next =>
    subst here
    simp [there, CacheFetchOperation.attachConsumer, attached]
  next => simp

theorem consumersIn_release :
    consumersIn (operations.modify operation .releaseConsumer) other =
      consumersIn operations other - if operation = other then 1 else 0 := by
  simp only [consumersIn, List.getElem?_modify]
  split_ifs with here
  next =>
    cases operations[other]? with
    | none => simp
    | some found =>
      by_cases none : found.consumers = 0
      · simp [CacheFetchOperation.releaseConsumer, none]
      · simp [CacheFetchOperation.releaseConsumer, none]
  next => simp

def CacheFetchOperation.Left (found : CacheFetchOperation) : Prop := found.abandoned = true → found.consumers = 0

theorem forall_modify {Fits : CacheFetchOperation → Prop} (fits : ∀ found ∈ operations, Fits found)
    (keeps : ∀ found ∈ operations, Fits found → Fits (change found)) :
    ∀ found ∈ operations.modify operation change, Fits found := by
  intro found member
  obtain ⟨place, there⟩ := List.mem_iff_getElem?.mp member
  rw [List.getElem?_modify] at there
  split_ifs at there with here
  next =>
    obtain ⟨before, old, rfl⟩ := Option.map_eq_some_iff.mp there
    exact keeps before (List.mem_of_getElem? old) (fits before (List.mem_of_getElem? old))
  next => exact fits found (List.mem_of_getElem? (by simpa using there))

namespace CacheFetchOperation

theorem attach_left (left : found.Left) : found.attachConsumer.Left := by
  unfold attachConsumer
  split_ifs with attached
  next =>
    intro given
    unfold attachResult at attached
    split at attached
    next => split_ifs at attached
    next => simp_all
  next => exact left

theorem release_left (left : found.Left) : found.releaseConsumer.Left := by
  unfold Left releaseConsumer
  split_ifs with none
  next => exact left
  next =>
    simp only [Bool.or_eq_true, Bool.and_eq_true, decide_eq_true_eq]
    rintro (before | ⟨single, -⟩)
    · exact absurd (left before) none
    · omega

@[simp] theorem finish_consumers (result : Published) : (found.finish result).consumers = found.consumers := by
  unfold finish
  split_ifs <;> rfl

@[simp] theorem finish_abandoned (result : Published) : (found.finish result).abandoned = found.abandoned := by
  unfold finish
  split_ifs <;> rfl

@[simp] theorem answer_consumers (result : Published) : (found.answer result).consumers = found.consumers := by
  unfold answer
  split_ifs <;> simp

@[simp] theorem answer_abandoned (result : Published) : (found.answer result).abandoned = found.abandoned := by
  unfold answer
  split_ifs <;> simp

@[simp] theorem subscribe_consumers : (found.subscribe index).consumers = found.consumers := by
  unfold subscribe
  split_ifs <;> rfl

@[simp] theorem subscribe_abandoned : (found.subscribe index).abandoned = found.abandoned := by
  unfold subscribe
  split_ifs <;> rfl

end CacheFetchOperation

namespace FetchState

def held (state : FetchState) (operation : Nat) : Nat :=
  total (FetchCall.holds operation) state.calls + total (Completion.holds operation) state.completions

structure Balanced (state : FetchState) : Prop where
  consumers : ∀ operation, consumersIn state.operations operation = state.held operation
  left : ∀ found ∈ state.operations, found.Left
  early : ∀ (index : Nat) (call : FetchCall), state.calls[index]? = some call → call.stage.early = true →
    call.operationAttached = false

theorem initial_balanced : ({} : FetchState).Balanced :=
  ⟨fun _ => rfl, fun _ member => absurd member List.not_mem_nil, fun _ _ here => by simp at here⟩

theorem Balanced.put (balanced : state.Balanced) (here : state.calls[index]? = some call)
    (kept : ∀ other, changed.holds other = call.holds other)
    (early : changed.stage.early = true → changed.operationAttached = false) : (state.put index changed).Balanced := by
  refine ⟨fun other => ?_, balanced.left, forall_lookup_set here early fun other part _ => balanced.early other part⟩
  have moved := @total_set _ _ _ _ changed (FetchCall.holds other) here
  have before := balanced.consumers other
  have now := kept other
  simp only [held, FetchState.put] at before ⊢
  omega

theorem Balanced.shift (balanced : state.Balanced) (here : state.calls[index]? = some call)
    (counted : ∀ other, consumersIn (state.operations.modify operation change) other + call.holds other =
      consumersIn state.operations other + changed.holds other)
    (left : ∀ found ∈ state.operations, found.Left → (change found).Left)
    (early : changed.stage.early = true → changed.operationAttached = false) :
    ((state.put index changed).update operation change).Balanced := by
  refine ⟨fun other => ?_, forall_modify balanced.left left,
    forall_lookup_set here early fun other part _ => balanced.early other part⟩
  have moved := @total_set _ _ _ _ changed (FetchCall.holds other) here
  have before := balanced.consumers other
  have now := counted other
  simp only [held, FetchState.put, FetchState.update] at before ⊢
  omega

theorem Balanced.update (balanced : state.Balanced) (consumers : ∀ found, (change found).consumers = found.consumers)
    (abandoned : ∀ found, (change found).abandoned = found.abandoned) : (state.update operation change).Balanced :=
  ⟨fun other => (consumersIn_modify consumers).trans (balanced.consumers other),
    forall_modify balanced.left fun found _ left => by
      rw [CacheFetchOperation.Left, consumers, abandoned]
      exact left,
    balanced.early⟩

theorem Balanced.erase (balanced : state.Balanced) : (state.erase operation).Balanced :=
  ⟨balanced.consumers, balanced.left, balanced.early⟩

theorem Balanced.register (balanced : state.Balanced) (key : Text) (ownerKind : CacheFetchOwnerKind) :
    (state.register key ownerKind).Balanced := by
  constructor
  · intro other
    have same : consumersIn (state.register key ownerKind).operations other = consumersIn state.operations other := by
      simp only [consumersIn, FetchState.register, List.getElem?_append]
      split_ifs with old
      next => rfl
      next =>
        rw [List.getElem?_eq_none (Nat.not_lt.mp old)]
        by_cases new : other - state.operations.length = 0
        · simp [new]
        · rw [List.getElem?_eq_none (by simp only [List.length_singleton]; omega)]
    exact same.trans (balanced.consumers other)
  · intro found member
    rcases List.mem_append.mp member with old | new
    · exact balanced.left found old
    · rw [List.mem_singleton.mp new]
      intro abandoned
      rfl
  · exact balanced.early

theorem Balanced.complete (balanced : state.Balanced) (call : Nat) (origin : CompletionOrigin) (outcome : FetchOutcome) :
    (state.complete call origin outcome).Balanced := by
  refine ⟨fun other => ?_, balanced.left, balanced.early⟩
  have before := balanced.consumers other
  simp only [held, FetchState.complete, total_append, total_cons, total_nil] at before ⊢
  simpa [Completion.holds] using before

theorem Balanced.go (balanced : state.Balanced) (here : state.calls[index]? = some call) {stage : FetchStage}
    (kept : ∀ other, stage.holds other = call.stage.holds other) (forward : stage.early = true → call.stage.early = true) :
    (state.put index { call with stage := stage }).Balanced :=
  balanced.put here (fun other => by simp only [FetchCall.holds, kept]) fun early => balanced.early index call here (forward early)

theorem Balanced.release (balanced : state.Balanced) (here : state.calls[index]? = some call) {stage : FetchStage}
    (given : ∀ other, stage.holds other + (if operation = other then 1 else 0) = call.stage.holds other)
    (late : stage.early = false) :
    ((state.put index { call with stage := stage }).update operation .releaseConsumer).Balanced := by
  refine balanced.shift here (fun other => ?_) (fun found _ => CacheFetchOperation.release_left) (by simp [late])
  have before := balanced.consumers other
  have inside := @le_total _ _ _ _ (FetchCall.holds other) here
  have now := given other
  rw [consumersIn_release]
  simp only [held, FetchCall.holds] at before inside ⊢
  omega

theorem placed_holds (attached : Bool) {owner : Bool} :
    (placed call operation owner attached).holds other = if operation = other ∧ attached then 1 else 0 := by
  unfold placed
  split
  next => rfl
  next => cases owner <;> rfl

theorem Balanced.advance (balanced : state.Balanced) (here : state.calls[index]? = some call)
    (stepped : state.advance index call = some next) : next.Balanced := by
  have early := balanced.early index call here
  have go : ∀ stage : FetchStage, (∀ other, stage.holds other = call.stage.holds other) →
      (stage.early = true → call.stage.early = true) → (state.put index { call with stage := stage }).Balanced :=
    fun stage kept forward => balanced.go here kept forward
  unfold FetchState.advance at stepped
  dsimp only at stepped
  cases stage : call.stage with
  | entered =>
    simp only [stage] at stepped early go
    split at stepped
    next =>
      cases stepped
      exact (go .returned (fun _ => rfl) (fun _ => rfl)).complete _ _ _
    next =>
      cases stepped
      split_ifs
      next => exact go .returned (fun _ => rfl) fun _ => rfl
      next => exact go .looking (fun _ => rfl) fun _ => rfl
  | looking =>
    simp only [stage, Option.map_eq_some_iff] at stepped go
    obtain ⟨key, -, rfl⟩ := stepped
    split
    next => exact go _ (fun _ => rfl) fun _ => rfl
    next => exact (go (.attaching _ true) (fun _ => rfl) fun _ => rfl).register _ _
  | attaching operation owner =>
    simp only [stage, Option.map_eq_some_iff] at stepped go early
    obtain ⟨found, there, rfl⟩ := stepped
    split
    next attached =>
      refine balanced.shift here (fun other => ?_) (fun found _ => CacheFetchOperation.attach_left) fun _ => early rfl
      rw [consumersIn_attach there attached]
      simp only [FetchCall.holds, placed_holds, stage, and_true]
      simp only [FetchStage.holds]
      omega
    next => exact go _ (fun other => by rw [placed_holds]; simp [FetchStage.holds]) fun _ => rfl
    all_goals exact go _ (fun _ => rfl) fun _ => rfl
  | erasing operation =>
    simp only [stage] at stepped go
    cases stepped
    exact (go .looking (fun _ => rfl) fun _ => rfl).erase
  | joining operation owner attached =>
    simp only [stage] at stepped go early
    split_ifs at stepped with gone
    next =>
      cases stepped
      exact go _ (fun _ => rfl) fun _ => rfl
    next =>
      cases stepped
      exact balanced.put here (fun other => by simp [FetchCall.holds, stage, FetchStage.holds, early rfl]) nofun
  | dropping operation owner attached =>
    simp only [stage, Option.some.injEq] at stepped go
    subst stepped
    split_ifs with held owned owned
    · exact balanced.release here (fun other => by simp [stage, FetchStage.holds, held]) rfl
    · exact balanced.release here (fun other => by simp [stage, FetchStage.holds, held]) rfl
    · exact go _ (fun other => by simp [FetchStage.holds, held]) nofun
    · exact go _ (fun other => by simp [FetchStage.holds, held]) nofun
  | failing operation =>
    simp only [stage] at stepped go
    cases stepped
    exact (go (.cleaning operation false) (fun other => by simp [FetchStage.holds]) nofun).update (by simp) (by simp)
  | subscribing operation owner =>
    simp only [stage, Option.map_eq_some_iff] at stepped go
    obtain ⟨found, there, rfl⟩ := stepped
    split
    next => exact balanced.put here (fun other => by simp [FetchCall.holds, stage, FetchStage.holds]) nofun
    next =>
      have moved : (state.put index { call with stage := .setting operation owner, joined := some operation }).Balanced :=
        balanced.put here (fun other => by simp [FetchCall.holds, stage, FetchStage.holds]) nofun
      exact moved.update (by simp) (by simp)
    next => exact (go (.invoking operation owner) (fun _ => rfl) nofun).complete _ _ _
  | invoking operation owner =>
    simp only [stage] at stepped
    split_ifs at stepped
    cases stepped
    exact balanced.put here (fun other => by simp [FetchCall.holds, stage, FetchStage.holds]) nofun
  | setting operation owner =>
    simp only [stage] at stepped go
    split_ifs at stepped
    next =>
      cases stepped
      exact go _ (fun _ => rfl) nofun
    next =>
      cases stepped
      exact balanced.put here (fun other => by simp [FetchCall.holds, stage, FetchStage.holds]) nofun
  | unsubscribing operation owner =>
    simp only [stage] at stepped go
    cases stepped
    exact (go (.starting operation owner) (fun _ => rfl) nofun).update (fun _ => rfl) fun _ => rfl
  | starting operation owner =>
    simp only [stage] at stepped go
    cases stepped
    split_ifs
    next => exact (go .returned (fun _ => rfl) nofun).update (fun _ => rfl) fun _ => rfl
    next => exact go _ (fun _ => rfl) nofun
  | waiting operation owner attached =>
    simp only [stage, Option.map_eq_some_iff] at stepped
    obtain ⟨result, -, rfl⟩ := stepped
    refine balanced.put here (fun other => ?_) (by cases owner <;> nofun)
    cases owner <;> simp [FetchCall.holds, stage, FetchStage.holds]
  | cleaning operation attached =>
    simp only [stage] at stepped go
    cases stepped
    exact (go (.releasing operation attached) (fun _ => rfl) nofun).erase
  | releasing operation attached =>
    simp only [stage, Option.some.injEq] at stepped go
    subst stepped
    split_ifs with held
    · exact balanced.release here (fun other => by simp [stage, FetchStage.holds, held]) rfl
    · exact go _ (fun other => by simp [FetchStage.holds, held]) nofun
  | transferring | returned => simp [stage] at stepped

theorem Balanced.proceed (balanced : state.Balanced) (listed : state.completions[index]? = some completion)
    (here : state.calls[completion.call]? = some call) (stepped : state.proceed index completion call = some next) :
    next.Balanced := by
  have early := balanced.early _ call here
  -- What a completion holds is what it has taken from its call and not given back.
  have counted : ∀ (changed : FetchCall) (moved : Completion),
      (∀ other, changed.holds other + moved.holds other = call.holds other + completion.holds other) →
      (changed.stage.early = true → changed.operationAttached = false) →
      ((state.putCompletion index moved).put completion.call changed).Balanced := by
    intro changed moved same early
    refine ⟨fun other => ?_, balanced.left, forall_lookup_set here early fun other part _ => balanced.early other part⟩
    have calls := @total_set _ _ _ _ changed (FetchCall.holds other) here
    have completions := @total_set _ _ _ _ moved (Completion.holds other) listed
    have before := balanced.consumers other
    have now := same other
    simp only [held, FetchState.put, FetchState.putCompletion] at before ⊢
    omega
  have go : ∀ moved : Completion, (∀ other, moved.holds other = completion.holds other) →
      (state.putCompletion index moved).Balanced := by
    intro moved same
    refine ⟨fun other => ?_, balanced.left, balanced.early⟩
    have completions := @total_set _ _ _ _ moved (Completion.holds other) listed
    have before := balanced.consumers other
    have now := same other
    simp only [held, FetchState.putCompletion] at before ⊢
    omega
  unfold FetchState.proceed at stepped
  dsimp only at stepped
  cases stage : completion.stage with
  | entered =>
    simp only [stage] at stepped
    split_ifs at stepped
    next =>
      cases stepped
      exact go _ fun other => by simp [Completion.holds, stage]
    next =>
      cases stepped
      exact counted _ _ (fun other => by simp [FetchCall.holds, Completion.holds, stage]) early
  | claimed =>
    simp only [stage] at stepped
    cases stepped
    exact go _ fun other => by simp [Completion.holds, stage]
  | detaching =>
    simp only [stage] at stepped
    by_cases gone : call.subscriptionDetached = true
    · rw [if_pos gone] at stepped
      cases stepped
      exact go _ fun other => by simp [Completion.holds, stage]
    · rw [if_neg gone] at stepped
      split at stepped
      next none =>
        cases stepped
        exact counted _ _ (fun other => by simp [FetchCall.holds, Completion.holds, stage, none]) fun _ => rfl
      next operation taken =>
        cases stepped
        refine counted _ _ (fun other => ?_) fun _ => rfl
        cases subscribed : call.subscribed <;> cases attached : call.operationAttached <;>
          simp [FetchCall.holds, Completion.holds, stage, taken, attached]
  | unsubscribing operation attached =>
    simp only [stage] at stepped
    cases stepped
    refine (go { completion with stage := if attached then .releasing operation else .invoking } fun other => ?_).update
      (fun _ => rfl) fun _ => rfl
    cases attached <;> simp [Completion.holds, stage]
  | releasing operation =>
    simp only [stage] at stepped
    cases stepped
    refine ⟨fun other => ?_, forall_modify balanced.left fun found _ => CacheFetchOperation.release_left, balanced.early⟩
    have completions := @total_set _ _ _ _ { completion with stage := .invoking } (Completion.holds other) listed
    have before := balanced.consumers other
    have inside := @le_total _ _ _ _ (Completion.holds other) listed
    have given : completion.holds other = if operation = other then 1 else 0 := by simp [Completion.holds, stage]
    have kept : Completion.holds other { completion with stage := .invoking } = 0 := rfl
    simp only [held, FetchState.update, FetchState.putCompletion, consumersIn_release] at before ⊢
    omega
  | invoking =>
    simp only [stage] at stepped
    cases stepped
    exact counted _ _ (fun other => by simp [FetchCall.holds, Completion.holds, stage]) early
  | returned => simp [stage] at stepped

theorem Balanced.transfer (balanced : state.Balanced) (here : state.calls[index]? = some call) {attached : Bool}
    (stage : call.stage = .transferring operation attached) :
    (state.put index { call with stage := .waiting operation true attached }).Balanced :=
  balanced.go here (fun other => by rw [stage]; rfl) nofun

theorem Balanced.step {action : FetchAction} (balanced : state.Balanced) (stepped : state.step action = some next) :
    next.Balanced := by
  have appended : ∀ added : FetchCall, (∀ other, added.holds other = 0) → added.operationAttached = false →
      ({ state with calls := state.calls ++ [added] } : FetchState).Balanced := by
    intro added none unattached
    refine ⟨fun other => ?_, balanced.left, forall_lookup_concat (fun _ => unattached) balanced.early⟩
    have before := balanced.consumers other
    simp only [held, total_append, total_cons, total_nil, none] at before ⊢
    omega
  cases action with
  | fetch | fetchDirect =>
    cases stepped
    exact appended _ (fun other => by simp [FetchCall.holds, FetchStage.holds]) rfl
  | advance index =>
    obtain ⟨call, here, advanced⟩ := Option.bind_eq_some_iff.mp stepped
    exact balanced.advance here advanced
  | cancel index =>
    obtain ⟨call, here, cancelled⟩ := Option.bind_eq_some_iff.mp stepped
    have flagged : (state.put index { call with cancelled := true }).Balanced :=
      balanced.put here (fun _ => rfl) (balanced.early index call here)
    split_ifs at cancelled
    · cases cancelled
      exact flagged.complete _ _ _
    · cases cancelled
      exact flagged
  | proceed index =>
    obtain ⟨completion, listed, rest⟩ := Option.bind_eq_some_iff.mp stepped
    obtain ⟨call, here, proceeded⟩ := Option.bind_eq_some_iff.mp rest
    exact balanced.proceed listed here proceeded
  | answer operation result =>
    obtain ⟨found, -, answered⟩ := Option.bind_eq_some_iff.mp stepped
    split_ifs at answered
    cases answered
    exact balanced.update (by simp) (by simp)
  | interrupt operation payload =>
    obtain ⟨found, -, interrupted⟩ := Option.bind_eq_some_iff.mp stepped
    split_ifs at interrupted
    cases interrupted
    exact balanced.update (by simp) (by simp)
  | deliver operation pick =>
    obtain ⟨found, -, rest⟩ := Option.bind_eq_some_iff.mp stepped
    obtain ⟨result, -, picked⟩ := Option.bind_eq_some_iff.mp rest
    obtain ⟨call, -, rfl⟩ := Option.map_eq_some_iff.mp picked
    have taken : (state.update operation fun found =>
        { found with delivering := found.delivering.eraseIdx pick }).Balanced := balanced.update (fun _ => rfl) fun _ => rfl
    exact taken.complete _ _ _
  | retire operation =>
    obtain ⟨found, -, retired⟩ := Option.bind_eq_some_iff.mp stepped
    split_ifs at retired
    cases retired
    exact balanced.erase
  | transfer index result =>
    obtain ⟨call, here, ended⟩ := Option.bind_eq_some_iff.mp stepped
    split at ended
    next operation attached stage =>
      cases ended
      exact (balanced.transfer here stage).update (by simp) (by simp)
    next => cases ended
  | cut index payload =>
    obtain ⟨call, here, ended⟩ := Option.bind_eq_some_iff.mp stepped
    split at ended
    next operation attached stage =>
      split_ifs at ended
      cases ended
      exact (balanced.transfer here stage).update (by simp) (by simp)
    next => cases ended

end FetchState

end Holders

end SubConverter.Handler
