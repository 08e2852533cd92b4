import SubConverter.Handler.FetchConsumers

set_option autoImplicit false

namespace SubConverter.Handler

section Links

variable {state next : FetchState} {call changed : FetchCall} {completion moved : Completion} {index operation other : Nat}
  {found : CacheFetchOperation} {operations : List CacheFetchOperation}
  {change : CacheFetchOperation → CacheFetchOperation}

def Completion.winning (index : Nat) (completion : Completion) : Nat :=
  if completion.call = index ∧ completion.stage ≠ .entered ∧ completion.stage ≠ .returned then 1 else 0

def CacheFetchOperation.listed (found : CacheFetchOperation) : List Nat := found.callbacks ++ found.delivering

def CacheFetchOperation.Queued (found : CacheFetchOperation) : Prop :=
  (found.done = none → found.delivering = []) ∧ (found.done.isSome = true → found.callbacks = [])

def FetchCall.answers (call : FetchCall) : Bool :=
  match call.stage with
  | .invoking _ _ => true
  | .returned => call.key.isNone
  | _ => false

def FetchStage.unjoined : FetchStage → Bool
  | .entered | .looking | .attaching _ _ | .erasing _ | .joining _ _ _ | .dropping _ _ _ | .failing _ | .subscribing _ _
  | .invoking _ _ => true
  | _ => false

structure FetchCall.Fresh (call : FetchCall) : Prop where
  unjoined : call.stage.unjoined = true → call.joined = none
  direct : call.key = none → call.joined = none ∧ (call.stage = .entered ∨ call.stage = .returned)
  detached : call.subscriptionDetached = true → call.completionClaimed = true

structure FetchCall.Moves (call changed : FetchCall) : Prop where
  outcomes : changed.outcomes = call.outcomes
  claimed : changed.completionClaimed = call.completionClaimed
  joined : ∀ operation, call.joined = some operation → changed.joined = some operation
  cancelled : call.cancelled = true → changed.cancelled = true
  fresh : changed.Fresh

namespace FetchState

def Finished (state : FetchState) (operation : Nat) : Prop :=
  ∃ found, state.operations[operation]? = some found ∧ found.done.isSome = true

def Explains (state : FetchState) (completion : Completion) (call : FetchCall) : Prop :=
  match completion.origin with
  | .cancellation => call.cancelled = true
  | .own => completion.stage = .returned ∨ call.answers = true
  | .publication operation => call.joined = some operation ∧ state.Finished operation

structure Linked (state : FetchState) : Prop where
  queued : ∀ found ∈ state.operations, found.Queued
  once : ∀ (index : Nat) (call : FetchCall), state.calls[index]? = some call →
    total (Completion.winning index) state.completions + call.outcomes.length = call.completionClaimed.toNat
  fresh : ∀ (index : Nat) (call : FetchCall), state.calls[index]? = some call → call.Fresh
  listed : ∀ (operation : Nat) (found : CacheFetchOperation), state.operations[operation]? = some found →
    ∀ index ∈ found.listed, ∃ call, state.calls[index]? = some call ∧ call.joined = some operation
  origins : ∀ completion ∈ state.completions, ∃ call, state.calls[completion.call]? = some call ∧
    state.Explains completion call

theorem initial_linked : ({} : FetchState).Linked :=
  ⟨fun _ member => absurd member List.not_mem_nil, fun _ _ here => by simp at here, fun _ _ here => by simp at here,
    fun _ _ there => by simp at there, fun _ member => absurd member List.not_mem_nil⟩

theorem lookup_put (here : state.calls[index]? = some call) :
    (state.put index changed).calls[other]? = if other = index then some changed else state.calls[other]? := by
  simp only [put, lookup_set here]

theorem Linked.put (linked : state.Linked) (here : state.calls[index]? = some call) (moves : call.Moves changed)
    (owned : ∀ completion ∈ state.completions, completion.call = index → completion.origin = .own →
      completion.stage = .returned ∨ changed.answers = true) : (state.put index changed).Linked := by
  constructor
  case queued => exact linked.queued
  case once =>
    refine forall_lookup_set here ?_ fun other part _ => linked.once other part
    rw [moves.outcomes, moves.claimed]
    exact linked.once index call here
  case fresh => exact forall_lookup_set here moves.fresh fun other part _ => linked.fresh other part
  case listed =>
    intro operation found there other member
    obtain ⟨part, present, joined⟩ := linked.listed operation found there other member
    rw [lookup_put here]
    split_ifs with same
    next =>
      subst same
      obtain rfl := Option.some.inj (here.symm.trans present)
      exact ⟨changed, rfl, moves.joined operation joined⟩
    next => exact ⟨part, present, joined⟩
  case origins =>
    intro completion member
    obtain ⟨part, present, explained⟩ := linked.origins completion member
    rw [lookup_put here]
    split_ifs with same
    next =>
      obtain rfl := Option.some.inj (here.symm.trans (same ▸ present))
      refine ⟨changed, rfl, ?_⟩
      unfold Explains at explained ⊢
      split at explained
      next origin => exact moves.cancelled explained
      next origin => exact owned completion member same origin
      next origin => exact ⟨moves.joined _ explained.1, explained.2⟩
    next => exact ⟨part, present, explained⟩

theorem Linked.own_returned (linked : state.Linked) (here : state.calls[index]? = some call) (other : call.answers = false) :
    ∀ completion ∈ state.completions, completion.call = index → completion.origin = .own → completion.stage = .returned := by
  intro completion member same origin
  obtain ⟨part, present, explained⟩ := linked.origins completion member
  obtain rfl := Option.some.inj (here.symm.trans (same ▸ present))
  simpa [Explains, origin, other] using explained

theorem Linked.update (linked : state.Linked)
    (queued : ∀ found ∈ state.operations, found.Queued → (change found).Queued)
    (finished : ∀ found : CacheFetchOperation, found.done.isSome = true → (change found).done.isSome = true)
    (listed : ∀ found, state.operations[operation]? = some found → ∀ index ∈ (change found).listed,
      index ∈ found.listed ∨ ∃ call, state.calls[index]? = some call ∧ call.joined = some operation) :
    (state.update operation change).Linked := by
  constructor
  case queued => exact forall_modify linked.queued queued
  case once => exact linked.once
  case fresh => exact linked.fresh
  case listed =>
    intro place found there index member
    simp only [FetchState.update, List.getElem?_modify] at there
    split_ifs at there with same
    next =>
      subst same
      obtain ⟨before, old, rfl⟩ := Option.map_eq_some_iff.mp there
      rcases listed before old index member with member | new
      · exact linked.listed operation before old index member
      · exact new
    next => exact linked.listed place found (by simpa using there) index member
  case origins =>
    intro completion member
    obtain ⟨call, present, explained⟩ := linked.origins completion member
    refine ⟨call, present, ?_⟩
    unfold Explains at explained ⊢
    split at explained
    next => exact explained
    next => exact explained
    next =>
      obtain ⟨joined, found, there, done⟩ := explained
      refine ⟨joined, ?_⟩
      simp only [Finished, FetchState.update, List.getElem?_modify]
      split_ifs
      next => exact ⟨change found, by simp [there], finished found done⟩
      next => exact ⟨found, by simpa using there, done⟩

theorem Linked.erase (linked : state.Linked) : (state.erase operation).Linked :=
  ⟨linked.queued, linked.once, linked.fresh, linked.listed, linked.origins⟩

theorem Linked.register (linked : state.Linked) (key : Text) (ownerKind : CacheFetchOwnerKind) :
    (state.register key ownerKind).Linked := by
  have grown : ∀ (place : Nat) (found : CacheFetchOperation), state.operations[place]? = some found →
      (state.register key ownerKind).operations[place]? = some found := by
    intro place found there
    simp only [FetchState.register]
    rw [List.getElem?_append_left (List.getElem?_eq_some_iff.mp there).1]
    exact there
  constructor
  case queued =>
    intro found member
    rcases List.mem_append.mp member with old | new
    · exact linked.queued found old
    · rw [List.mem_singleton.mp new]
      exact ⟨fun _ => rfl, fun _ => rfl⟩
  case once => exact linked.once
  case fresh => exact linked.fresh
  case listed =>
    exact forall_lookup_concat (fun _ member => by simp [CacheFetchOperation.listed] at member) linked.listed
  case origins =>
    intro completion member
    obtain ⟨call, present, explained⟩ := linked.origins completion member
    refine ⟨call, present, ?_⟩
    unfold Explains at explained ⊢
    split at explained
    next => exact explained
    next => exact explained
    next =>
      obtain ⟨joined, found, there, done⟩ := explained
      exact ⟨joined, found, grown _ found there, done⟩

theorem Linked.complete (linked : state.Linked) (here : state.calls[index]? = some call) {origin : CompletionOrigin}
    (outcome : FetchOutcome) (explained : state.Explains { call := index, origin := origin, outcome := outcome } call) :
    (state.complete index origin outcome).Linked := by
  constructor
  case queued => exact linked.queued
  case once =>
    intro other part present
    have before := linked.once other part present
    simpa [FetchState.complete, Completion.winning] using before
  case fresh => exact linked.fresh
  case listed => exact linked.listed
  case origins =>
    intro completion member
    rcases List.mem_append.mp member with old | new
    · exact linked.origins completion old
    · rw [List.mem_singleton.mp new]
      exact ⟨call, here, explained⟩

end FetchState

namespace CacheFetchOperation

theorem finish_queued (result : Published) (queued : found.Queued) : (found.finish result).Queued := by
  unfold finish
  split_ifs with done
  next => exact queued
  next => exact ⟨nofun, fun _ => rfl⟩

theorem finish_listed (result : Published) : ∀ index ∈ (found.finish result).listed, index ∈ found.listed := by
  unfold finish
  split_ifs with done
  next => exact fun _ member => member
  next =>
    intro index member
    simp only [listed, List.nil_append] at member
    exact List.mem_append_left _ member

theorem finish_done (result : Published) : (found.finish result).done.isSome = true := by
  unfold finish
  split_ifs with done
  next => exact done
  next => rfl

theorem answer_queued (result : Published) (queued : found.Queued) : (found.answer result).Queued := by
  unfold answer
  split_ifs with done
  next => exact queued
  next => exact finish_queued result queued

theorem answer_listed (result : Published) : ∀ index ∈ (found.answer result).listed, index ∈ found.listed := by
  unfold answer
  split_ifs with done
  next => exact fun _ member => member
  next => exact finish_listed result

theorem answer_done (result : Published) : (found.answer result).done.isSome = true := by
  unfold answer
  split_ifs with done
  next => exact done
  next => exact finish_done result

@[simp] theorem attach_done : found.attachConsumer.done = found.done := by
  unfold attachConsumer
  split_ifs <;> rfl

@[simp] theorem attach_listed : found.attachConsumer.listed = found.listed := by
  unfold attachConsumer
  split_ifs <;> rfl

@[simp] theorem attach_queued : found.attachConsumer.Queued ↔ found.Queued := by
  unfold attachConsumer
  split_ifs <;> exact Iff.rfl

@[simp] theorem release_done : found.releaseConsumer.done = found.done := by
  unfold releaseConsumer
  split_ifs <;> rfl

@[simp] theorem release_listed : found.releaseConsumer.listed = found.listed := by
  unfold releaseConsumer
  split_ifs <;> rfl

@[simp] theorem release_queued : found.releaseConsumer.Queued ↔ found.Queued := by
  unfold releaseConsumer
  split_ifs <;> exact Iff.rfl

theorem unsubscribe_queued (queued : found.Queued) : (found.unsubscribe index).Queued :=
  ⟨queued.1, fun done => by simp [unsubscribe, queued.2 done]⟩

theorem unsubscribe_listed : ∀ other ∈ (found.unsubscribe index).listed, other ∈ found.listed := by
  intro other member
  rcases List.mem_append.mp member with kept | kept
  · exact List.mem_append_left _ (List.mem_of_mem_erase kept)
  · exact List.mem_append_right _ kept

theorem subscribe_queued (queued : found.Queued) : (found.subscribe index).Queued := by
  unfold subscribe
  split_ifs with registered
  next =>
    refine ⟨queued.1, fun done => ?_⟩
    unfold subscription at registered
    split_ifs at registered
    split at registered
    next => cases registered
    next none => simp [none] at done
  next => exact queued

theorem subscribe_listed : ∀ other ∈ (found.subscribe index).listed, other ∈ found.listed ∨ other = index := by
  unfold subscribe
  split_ifs
  next =>
    intro other member
    simp only [listed, List.mem_append, List.mem_singleton] at member ⊢
    tauto
  next => exact fun _ member => Or.inl member

@[simp] theorem subscribe_done : (found.subscribe index).done = found.done := by
  unfold subscribe
  split_ifs <;> rfl

end CacheFetchOperation

namespace FetchState

theorem Linked.keyed (linked : state.Linked) (here : state.calls[index]? = some call)
    (entered : call.stage ≠ .entered) (returned : call.stage ≠ .returned) : call.key ≠ none := fun none =>
  ((linked.fresh index call here).direct none).2.elim entered returned

theorem Linked.go (linked : state.Linked) (here : state.calls[index]? = some call) {stage : FetchStage}
    (quiet : call.answers = false) (keyed : call.key ≠ none) (forward : stage.unjoined = true → call.stage.unjoined = true) :
    (state.put index { call with stage := stage }).Linked := by
  have fresh := linked.fresh index call here
  refine linked.put here ⟨rfl, rfl, fun _ joined => joined, id, ?_⟩ fun completion member same origin =>
    Or.inl (linked.own_returned here quiet completion member same origin)
  exact ⟨fun unjoined => fresh.unjoined (forward unjoined), fun none => absurd none keyed, fresh.detached⟩

theorem Linked.attach (linked : state.Linked) : (state.update operation .attachConsumer).Linked :=
  linked.update (by simp) (by simp) fun _ _ _ member => Or.inl (by simpa using member)

theorem Linked.release (linked : state.Linked) : (state.update operation .releaseConsumer).Linked :=
  linked.update (by simp) (by simp) fun _ _ _ member => Or.inl (by simpa using member)

theorem Linked.finish (linked : state.Linked) (result : Published) :
    (state.update operation fun found => found.finish result).Linked := by
  refine linked.update (fun _ _ => CacheFetchOperation.finish_queued result)
    (fun found _ => CacheFetchOperation.finish_done result) fun found there index member => ?_
  exact Or.inl (CacheFetchOperation.finish_listed result index member)

theorem Linked.answer (linked : state.Linked) (result : Published) :
    (state.update operation fun found => found.answer result).Linked := by
  refine linked.update (fun _ _ => CacheFetchOperation.answer_queued result)
    (fun found _ => CacheFetchOperation.answer_done result) fun found there index member => ?_
  exact Or.inl (CacheFetchOperation.answer_listed result index member)

theorem Linked.unsubscribe (linked : state.Linked) :
    (state.update operation fun found => found.unsubscribe index).Linked :=
  linked.update (fun _ _ => CacheFetchOperation.unsubscribe_queued) (fun _ done => done)
    fun _ _ other member => Or.inl (CacheFetchOperation.unsubscribe_listed other member)

theorem Linked.advance (linked : state.Linked) (here : state.calls[index]? = some call)
    (stepped : state.advance index call = some next) : next.Linked := by
  have fresh := linked.fresh index call here
  have owned : call.answers = false → ∀ changed : FetchCall, ∀ completion ∈ state.completions, completion.call = index →
      completion.origin = .own → completion.stage = .returned ∨ changed.answers = true :=
    fun quiet _ completion member same origin => Or.inl (linked.own_returned here quiet completion member same origin)
  have unjoined := fresh.unjoined
  have plain : call.stage ≠ .entered → call.stage ≠ .returned →
      (∀ operation owner, call.stage ≠ .invoking operation owner) → ∀ later : FetchStage,
      (later.unjoined = true → call.stage.unjoined = true) → (state.put index { call with stage := later }).Linked := by
    intro entered returned invoking later forward
    refine linked.go here ?_ (linked.keyed here entered returned) forward
    unfold FetchCall.answers
    split <;> simp_all
  unfold FetchState.advance at stepped
  dsimp only at stepped
  cases stage : call.stage with
  | entered =>
    have quiet : call.answers = false := by simp [FetchCall.answers, stage]
    have none := unjoined (by simp [stage, FetchStage.unjoined])
    simp only [stage] at stepped
    split at stepped
    next direct =>
      cases stepped
      have left : (state.put index { call with stage := .returned }).Linked :=
        linked.put here ⟨rfl, rfl, fun _ joined => joined, id,
          ⟨nofun, fun _ => ⟨none, Or.inr rfl⟩, fresh.detached⟩⟩ (owned quiet _)
      refine left.complete (lookup_put here |>.trans (if_pos rfl)) _ ?_
      simp [Explains, FetchCall.answers, direct]
    next key given =>
      cases stepped
      have keyed : call.key ≠ Option.none := by simp [given]
      split_ifs
      next => exact linked.go here quiet keyed nofun
      next => exact linked.go here quiet keyed fun _ => by simp [stage, FetchStage.unjoined]
  | invoking operation owner =>
    simp only [stage] at stepped
    split_ifs at stepped with finished
    cases stepped
    have keyed := linked.keyed here (by simp [stage]) (by simp [stage])
    have none := unjoined (by simp [stage, FetchStage.unjoined])
    refine linked.put here ⟨rfl, rfl, fun _ joined => by simp [none] at joined, id,
      ⟨nofun, fun direct => absurd direct keyed, fresh.detached⟩⟩ fun completion member same origin => ?_
    have settled := List.all_eq_true.mp finished completion member
    exact Or.inl (by simpa [same, origin] using settled)
  | transferring | returned => simp [stage] at stepped
  | looking =>
    simp only [stage, Option.map_eq_some_iff] at stepped plain
    obtain ⟨key, -, rfl⟩ := stepped
    split
    next => exact plain nofun nofun nofun _ fun _ => rfl
    next => exact (plain nofun nofun nofun (.attaching _ true) fun _ => rfl).register _ _
  | attaching operation owner =>
    simp only [stage, Option.map_eq_some_iff] at stepped plain
    obtain ⟨found, -, rfl⟩ := stepped
    split
    next => exact (plain nofun nofun nofun (placed call operation owner true) fun _ => rfl).attach
    all_goals exact plain nofun nofun nofun _ fun _ => rfl
  | erasing operation =>
    simp only [stage] at stepped plain
    cases stepped
    exact (plain nofun nofun nofun .looking fun _ => rfl).erase
  | joining operation owner attached =>
    have none := unjoined (by simp [stage, FetchStage.unjoined])
    have keyed := linked.keyed here (by simp [stage]) (by simp [stage])
    simp only [stage] at stepped plain
    split_ifs at stepped
    next =>
      cases stepped
      exact plain nofun nofun nofun _ fun _ => rfl
    next =>
      cases stepped
      exact linked.put here ⟨rfl, rfl, fun _ joined => joined, id,
        ⟨fun _ => none, fun direct => absurd direct keyed, fresh.detached⟩⟩ (owned (by simp [FetchCall.answers, stage]) _)
  | dropping operation owner attached =>
    simp only [stage, Option.some.injEq] at stepped plain
    subst stepped
    have moved : (state.put index { call with stage := if owner then .failing operation else .returned }).Linked :=
      plain nofun nofun nofun _ fun _ => rfl
    split_ifs
    all_goals simp_all [Linked.release]
  | failing operation =>
    simp only [stage] at stepped plain
    cases stepped
    exact (plain nofun nofun nofun (.cleaning operation false) nofun).finish none
  | subscribing operation owner =>
    have none := unjoined (by simp [stage, FetchStage.unjoined])
    have keyed := linked.keyed here (by simp [stage]) (by simp [stage])
    have joins : ∀ later : FetchStage, later.unjoined = false →
        (state.put index { call with stage := later, joined := some operation }).Linked := fun later joined =>
      linked.put here ⟨rfl, rfl, fun _ before => by simp [none] at before, id,
        ⟨fun unjoined => by simp [joined] at unjoined, fun direct => absurd direct keyed, fresh.detached⟩⟩
        (owned (by simp [FetchCall.answers, stage]) _)
    simp only [stage, Option.map_eq_some_iff] at stepped plain
    obtain ⟨found, there, rfl⟩ := stepped
    split
    next => exact joins _ rfl
    next =>
      refine (joins (.setting operation owner) rfl).update (fun _ _ => CacheFetchOperation.subscribe_queued)
        (fun found done => by simpa using done) fun found _ other member => ?_
      rcases CacheFetchOperation.subscribe_listed other member with old | rfl
      · exact Or.inl old
      · exact Or.inr ⟨_, (lookup_put here).trans (if_pos rfl), rfl⟩
    next result =>
      refine (plain nofun nofun nofun (.invoking operation owner) fun _ => rfl).complete
        ((lookup_put here).trans (if_pos rfl)) _ ?_
      exact Or.inr rfl
  | setting operation owner =>
    have keyed := linked.keyed here (by simp [stage]) (by simp [stage])
    simp only [stage] at stepped plain
    split_ifs at stepped
    next =>
      cases stepped
      exact plain nofun nofun nofun _ nofun
    next =>
      cases stepped
      exact linked.put here ⟨rfl, rfl, fun _ joined => joined, id,
        ⟨nofun, fun direct => absurd direct keyed, fresh.detached⟩⟩ (owned (by simp [FetchCall.answers, stage]) _)
  | unsubscribing operation owner =>
    simp only [stage] at stepped plain
    cases stepped
    exact (plain nofun nofun nofun (.starting operation owner) nofun).unsubscribe
  | starting operation owner =>
    simp only [stage] at stepped plain
    cases stepped
    have moved : (state.put index { call with stage := .returned }).Linked := plain nofun nofun nofun _ nofun
    split_ifs
    next => exact moved.update (fun _ _ queued => queued) (fun _ done => done) fun _ _ _ member => Or.inl member
    next => exact moved
  | waiting operation owner attached =>
    have keyed := linked.keyed here (by simp [stage]) (by simp [stage])
    simp only [stage, Option.map_eq_some_iff] at stepped plain
    obtain ⟨result, -, rfl⟩ := stepped
    refine linked.put here ⟨rfl, rfl, fun _ joined => joined, id, ⟨?_, fun direct => absurd direct keyed, fresh.detached⟩⟩
      (owned (by simp [FetchCall.answers, stage]) _)
    cases owner <;> nofun
  | cleaning operation attached =>
    simp only [stage] at stepped plain
    cases stepped
    exact (plain nofun nofun nofun (.releasing operation attached) nofun).erase
  | releasing operation attached =>
    simp only [stage, Option.some.injEq] at stepped plain
    subst stepped
    have moved : (state.put index { call with stage := .returned }).Linked := plain nofun nofun nofun _ nofun
    split_ifs
    next => exact moved.release
    next => exact moved

theorem put_same (here : state.calls[index]? = some call) : state.put index call = state := by
  have same : state.calls.set index call = state.calls := by
    apply List.ext_getElem?
    intro place
    rw [lookup_set here]
    split_ifs with at?
    next => rw [at?, here]
    next => rfl
  simp only [put, same]

theorem Linked.exchange (linked : state.Linked) (listed : state.completions[index]? = some completion)
    (here : state.calls[completion.call]? = some call) (same : moved.call = completion.call)
    (origin : moved.origin = completion.origin) (ongoing : completion.stage ≠ .returned)
    (counted : moved.winning completion.call + changed.outcomes.length + call.completionClaimed.toNat =
      completion.winning completion.call + call.outcomes.length + changed.completionClaimed.toNat)
    (joined : changed.joined = call.joined) (cancelled : changed.cancelled = call.cancelled)
    (answers : changed.answers = call.answers) (fresh : changed.Fresh) :
    ((state.putCompletion index moved).put completion.call changed).Linked := by
  have there : (state.putCompletion index moved).calls[completion.call]? = some call := here
  constructor
  case queued => exact linked.queued
  case once =>
    refine forall_lookup_set here ?_ fun other part apart present => ?_
    · have before := linked.once completion.call call here
      have after := @total_set _ _ _ _ moved (Completion.winning completion.call) listed
      simp only [FetchState.put, FetchState.putCompletion] at after ⊢
      omega
    · have before := linked.once other part present
      have after := @total_set _ _ _ _ moved (Completion.winning other) listed
      have none : moved.winning other = 0 := if_neg fun win => apart (win.1.symm.trans same)
      have none' : completion.winning other = 0 := if_neg fun win => apart win.1.symm
      simp only [FetchState.put, FetchState.putCompletion] at after ⊢
      omega
  case fresh => exact forall_lookup_set here fresh fun other part _ => linked.fresh other part
  case listed =>
    intro operation found at? other member
    obtain ⟨part, present, was⟩ := linked.listed operation found at? other member
    rw [lookup_put there]
    split_ifs with equal
    next =>
      obtain rfl := Option.some.inj (here.symm.trans (equal ▸ present))
      exact ⟨changed, rfl, joined.trans was⟩
    next => exact ⟨part, present, was⟩
  case origins =>
    intro part member
    have explains : ∀ (old new : Completion) (before : FetchCall), old.origin = new.origin →
        (old.stage = .returned → new.stage = .returned) → state.Explains old before →
        ∀ after : FetchCall, after.joined = before.joined → after.cancelled = before.cancelled →
          after.answers = before.answers → state.Explains new after := by
      intro old new before origins returned explained after joined cancelled answers
      unfold Explains at explained ⊢
      rw [← origins]
      split at explained
      next => exact cancelled.trans explained
      next => exact explained.imp returned answers.trans
      next => exact ⟨joined.trans explained.1, explained.2⟩
    obtain ⟨place, at?⟩ := List.mem_iff_getElem?.mp member
    rw [show ((state.putCompletion index moved).put completion.call changed).completions[place]? =
      (state.completions.set index moved)[place]? from rfl, lookup_set listed] at at?
    rw [lookup_put there]
    split_ifs at at? with equal
    next =>
      obtain rfl := Option.some.inj at?
      obtain ⟨owner, present, explained⟩ := linked.origins completion (List.mem_of_getElem? listed)
      obtain rfl := Option.some.inj (here.symm.trans present)
      exact ⟨changed, by simp [same], explains _ _ _ origin.symm (fun returned => absurd returned ongoing) explained _ joined
        cancelled answers⟩
    next =>
      obtain ⟨owner, present, explained⟩ := linked.origins part (List.mem_of_getElem? at?)
      split_ifs with own
      next =>
        obtain rfl := Option.some.inj (here.symm.trans (own ▸ present))
        exact ⟨changed, rfl, explains _ _ _ rfl id explained _ joined cancelled answers⟩
      next => exact ⟨owner, present, explained⟩

theorem Linked.claimed_of_winning (linked : state.Linked) (listed : state.completions[index]? = some completion)
    (here : state.calls[completion.call]? = some call) (entered : completion.stage ≠ .entered)
    (returned : completion.stage ≠ .returned) : call.completionClaimed = true := by
  have once := linked.once completion.call call here
  have inside := @le_total _ _ _ _ (Completion.winning completion.call) listed
  have wins : completion.winning completion.call = 1 := if_pos ⟨rfl, entered, returned⟩
  cases claimed : call.completionClaimed with
  | true => rfl
  | false =>
    simp only [claimed, Bool.toNat_false] at once
    omega

theorem Linked.proceed (linked : state.Linked) (listed : state.completions[index]? = some completion)
    (here : state.calls[completion.call]? = some call) (stepped : state.proceed index completion call = some next) :
    next.Linked := by
  have fresh := linked.fresh _ call here
  have claimed := linked.claimed_of_winning listed here
  have alone : ∀ moved : Completion, moved.call = completion.call → moved.origin = completion.origin →
      completion.stage ≠ .returned → moved.winning completion.call = completion.winning completion.call →
      (state.putCompletion index moved).Linked := by
    intro moved same origin ongoing wins
    rw [← put_same (show (state.putCompletion index moved).calls[completion.call]? = some call from here)]
    exact linked.exchange listed here same origin ongoing (by rw [wins]) rfl rfl rfl fresh
  unfold FetchState.proceed at stepped
  dsimp only at stepped
  cases stage : completion.stage with
  | entered =>
    simp only [stage] at stepped
    split_ifs at stepped with taken
    next =>
      cases stepped
      exact alone _ rfl rfl (by simp [stage]) (by simp [Completion.winning, stage])
    next =>
      cases stepped
      refine linked.exchange listed here rfl rfl (by simp [stage]) ?_ rfl rfl rfl
        ⟨fresh.unjoined, fresh.direct, fun _ => rfl⟩
      simp [Completion.winning, stage, taken]
      omega
  | claimed =>
    simp only [stage] at stepped
    cases stepped
    exact alone _ rfl rfl (by simp [stage]) (by simp [Completion.winning, stage])
  | detaching =>
    have claimed := claimed (by simp [stage]) (by simp [stage])
    have detached : ∀ changed : FetchCall, ({ call with
        subscriptionDetached := true, operation := none, subscribed := false, operationAttached := false } : FetchCall).Fresh :=
      fun _ => ⟨fresh.unjoined, fresh.direct, fun _ => claimed⟩
    simp only [stage] at stepped
    by_cases gone : call.subscriptionDetached = true
    · rw [if_pos gone] at stepped
      cases stepped
      exact alone _ rfl rfl (by simp [stage]) (by simp [Completion.winning, stage])
    · rw [if_neg gone] at stepped
      split at stepped
      all_goals
        cases stepped
        refine linked.exchange listed here rfl rfl (by simp [stage]) ?_ rfl rfl rfl (detached call)
        simp only [Completion.winning, stage]
        split_ifs <;> simp_all
  | unsubscribing operation attached =>
    simp only [stage] at stepped
    cases stepped
    refine (alone { completion with stage := if attached then .releasing operation else .invoking } rfl rfl
      (by simp [stage]) ?_).unsubscribe
    cases attached <;> simp [Completion.winning, stage]
  | releasing operation =>
    simp only [stage] at stepped
    cases stepped
    exact (alone { completion with stage := .invoking } rfl rfl (by simp [stage]) (by simp [Completion.winning, stage])).release
  | invoking =>
    simp only [stage] at stepped
    cases stepped
    refine linked.exchange listed here rfl rfl (by simp [stage]) ?_ rfl rfl rfl ⟨fresh.1, fresh.2, fresh.3⟩
    simp [Completion.winning, stage]
    omega
  | returned => simp [stage] at stepped

theorem Linked.transfer (linked : state.Linked) (here : state.calls[index]? = some call) {attached : Bool}
    (stage : call.stage = .transferring operation attached) :
    (state.put index { call with stage := .waiting operation true attached }).Linked :=
  linked.go here (by simp [FetchCall.answers, stage]) (linked.keyed here (by simp [stage]) (by simp [stage])) nofun

theorem Linked.step {action : FetchAction} (linked : state.Linked) (stepped : state.step action = some next) :
    next.Linked := by
  have appended : ∀ added : FetchCall, added.stage = .entered → added.joined = none → added.outcomes = [] →
      added.completionClaimed = false → added.subscriptionDetached = false →
      ({ state with calls := state.calls ++ [added] } : FetchState).Linked := by
    intro added entered joined outcomes claimed detached
    have kept : ∀ (place : Nat) (call : FetchCall), state.calls[place]? = some call →
        (state.calls ++ [added])[place]? = some call := fun place call present => by
      rw [List.getElem?_append_left (List.getElem?_eq_some_iff.mp present).1]
      exact present
    constructor
    case queued => exact linked.queued
    case once =>
      refine forall_lookup_concat ?_ linked.once
      rw [outcomes, claimed]
      simp only [List.length_nil, Nat.add_zero, Bool.toNat_false, total_eq_zero_iff]
      intro completion member
      obtain ⟨call, present, -⟩ := linked.origins completion member
      refine if_neg fun win => ?_
      rw [win.1, List.getElem?_eq_none (Nat.le_refl _)] at present
      cases present
    case fresh =>
      exact forall_lookup_concat
        ⟨fun _ => joined, fun _ => ⟨joined, Or.inl entered⟩, fun given => by simp [detached] at given⟩ linked.fresh
    case listed =>
      intro operation found there other member
      obtain ⟨call, present, was⟩ := linked.listed operation found there other member
      exact ⟨call, kept _ _ present, was⟩
    case origins =>
      intro completion member
      obtain ⟨call, present, explained⟩ := linked.origins completion member
      exact ⟨call, kept _ _ present, explained⟩
  cases action with
  | fetch | fetchDirect =>
    cases stepped
    exact appended _ rfl rfl rfl rfl rfl
  | advance index =>
    obtain ⟨call, here, advanced⟩ := Option.bind_eq_some_iff.mp stepped
    exact linked.advance here advanced
  | cancel index =>
    obtain ⟨call, here, cancelled⟩ := Option.bind_eq_some_iff.mp stepped
    have fresh := linked.fresh index call here
    have flagged : (state.put index { call with cancelled := true }).Linked := by
      refine linked.put here ⟨rfl, rfl, fun _ joined => joined, fun _ => rfl, fresh.1, fresh.2, fresh.3⟩ ?_
      intro completion member same origin
      obtain ⟨part, present, explained⟩ := linked.origins completion member
      obtain rfl := Option.some.inj (here.symm.trans (same ▸ present))
      have before : completion.stage = .returned ∨ call.answers = true := by simpa [Explains, origin] using explained
      exact before
    split_ifs at cancelled
    · cases cancelled
      exact flagged.complete ((lookup_put here).trans (if_pos rfl)) _ rfl
    · cases cancelled
      exact flagged
  | proceed index =>
    obtain ⟨completion, listed, rest⟩ := Option.bind_eq_some_iff.mp stepped
    obtain ⟨call, here, proceeded⟩ := Option.bind_eq_some_iff.mp rest
    exact linked.proceed listed here proceeded
  | answer operation result =>
    obtain ⟨found, -, answered⟩ := Option.bind_eq_some_iff.mp stepped
    split_ifs at answered
    cases answered
    exact linked.answer result
  | interrupt operation payload =>
    obtain ⟨found, -, interrupted⟩ := Option.bind_eq_some_iff.mp stepped
    split_ifs at interrupted
    cases interrupted
    exact linked.finish _
  | deliver operation pick =>
    obtain ⟨found, there, rest⟩ := Option.bind_eq_some_iff.mp stepped
    obtain ⟨result, done, picked⟩ := Option.bind_eq_some_iff.mp rest
    obtain ⟨call, chosen, rfl⟩ := Option.map_eq_some_iff.mp picked
    obtain ⟨owner, present, joined⟩ :=
      linked.listed operation found there call (List.mem_append_right _ (List.mem_of_getElem? chosen))
    have taken : (state.update operation fun found =>
        { found with delivering := found.delivering.eraseIdx pick }).Linked := by
      refine linked.update (fun found _ queued => ⟨fun none => by simp [queued.1 none], queued.2⟩) (fun _ done => done)
        fun found _ index member => Or.inl ?_
      rcases List.mem_append.mp member with kept | kept
      · exact List.mem_append_left _ kept
      · exact List.mem_append_right _ (List.mem_of_mem_eraseIdx kept)
    refine taken.complete present _ ⟨joined, { found with delivering := found.delivering.eraseIdx pick }, ?_, by simp [done]⟩
    simp [FetchState.update, there]
  | retire operation =>
    obtain ⟨found, -, retired⟩ := Option.bind_eq_some_iff.mp stepped
    split_ifs at retired
    cases retired
    exact linked.erase
  | transfer index result =>
    obtain ⟨call, here, ended⟩ := Option.bind_eq_some_iff.mp stepped
    split at ended
    next operation attached stage =>
      cases ended
      exact (linked.transfer here stage).answer result
    next => cases ended
  | cut index payload =>
    obtain ⟨call, here, ended⟩ := Option.bind_eq_some_iff.mp stepped
    split at ended
    next operation attached stage =>
      split_ifs at ended
      cases ended
      exact (linked.transfer here stage).finish _
    next => cases ended

end FetchState

end Links

end SubConverter.Handler
