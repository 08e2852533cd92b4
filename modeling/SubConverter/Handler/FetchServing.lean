import Mathlib
import SubConverter.Handler.FetchLinks

set_option autoImplicit false

namespace SubConverter.Handler

section Serving

variable {state next : FetchState} {call changed : FetchCall} {completion moved : Completion} {index operation other : Nat}
  {found : CacheFetchOperation} {change : CacheFetchOperation → CacheFetchOperation}

def FetchStage.subscribesTo : FetchStage → Option Nat
  | .subscribing operation _ => some operation
  | _ => none

def FetchCall.Fitted (call : FetchCall) : Prop :=
  match call.stage with
  | .subscribing operation _ | .setting operation _ => call.completionClaimed = false → call.operation = some operation
  | .unsubscribing _ _ => call.completionClaimed = true
  | _ => True

namespace FetchState

def Awaits (state : FetchState) (index operation : Nat) : Prop :=
  (∃ found, state.operations[operation]? = some found ∧ index ∈ found.listed) ∨
    ∃ completion ∈ state.completions, completion.call = index ∧ completion.origin = .publication operation ∧
      completion.stage = .entered

def Answering (state : FetchState) (index : Nat) : Prop :=
  ∃ completion ∈ state.completions, completion.call = index ∧ completion.origin = .own ∧ completion.stage = .entered

structure Serves (state : FetchState) (index : Nat) (call : FetchCall) : Prop where
  expecting : ∀ operation, call.joined = some operation → call.completionClaimed = false → state.Awaits index operation
  called : (∃ operation owner, call.stage = .invoking operation owner) → call.completionClaimed = false →
    state.Answering index
  fitted : call.Fitted

def Served (state : FetchState) : Prop :=
  ∀ (index : Nat) (call : FetchCall), state.calls[index]? = some call → state.Serves index call

structure Leaves (state next : FetchState) (index : Nat) (call : FetchCall) : Prop where
  awaits : ∀ operation, call.completionClaimed = false → state.Awaits index operation → next.Awaits index operation
  answering : call.completionClaimed = false → state.Answering index → next.Answering index

theorem Serves.leaves (serves : state.Serves index call) (left : state.Leaves next index call) : next.Serves index call :=
  ⟨fun operation joined unclaimed => left.awaits operation unclaimed (serves.expecting operation joined unclaimed),
    fun invoking unclaimed => left.answering unclaimed (serves.called invoking unclaimed), serves.fitted⟩

theorem Serves.of_claimed (claimed : call.completionClaimed = true) : state.Serves index call := by
  refine ⟨fun _ _ unclaimed => by simp [claimed] at unclaimed, fun _ unclaimed => by simp [claimed] at unclaimed, ?_⟩
  unfold FetchCall.Fitted
  split <;> simp [claimed]

theorem Served.put (served : state.Served) (here : state.calls[index]? = some call) (serves : state.Serves index changed) :
    (state.put index changed).Served :=
  forall_lookup_set here ⟨serves.expecting, serves.called, serves.fitted⟩ fun other part _ present =>
    have kept := served other part present
    ⟨kept.expecting, kept.called, kept.fitted⟩

theorem Served.update (served : state.Served)
    (listed : ∀ found, state.operations[operation]? = some found → ∀ (index : Nat) (call : FetchCall),
      state.calls[index]? = some call → call.completionClaimed = false → index ∈ found.listed → index ∈ (change found).listed) :
    (state.update operation change).Served := by
  intro index call here
  refine (served index call here).leaves ⟨?_, fun _ answering => answering⟩
  rintro place unclaimed (⟨found, there, member⟩ | coming)
  · refine Or.inl ?_
    simp only [FetchState.update, List.getElem?_modify]
    split_ifs with same
    next =>
      subst same
      exact ⟨change found, by simp [there], listed found there index call here unclaimed member⟩
    next => exact ⟨found, by simpa using there, member⟩
  · exact Or.inr coming

theorem Served.erase (served : state.Served) : (state.erase operation).Served := fun index call here =>
  have kept := served index call here
  ⟨kept.expecting, kept.called, kept.fitted⟩

theorem Served.register (served : state.Served) (key : Text) (ownerKind : CacheFetchOwnerKind) :
    (state.register key ownerKind).Served := by
  have grown : ∀ (place : Nat) (found : CacheFetchOperation), state.operations[place]? = some found →
      (state.register key ownerKind).operations[place]? = some found := by
    intro place found there
    simp only [FetchState.register]
    rw [List.getElem?_append_left (List.getElem?_eq_some_iff.mp there).1]
    exact there
  intro index call here
  refine (served index call here).leaves ⟨?_, fun _ answering => answering⟩
  rintro place - (⟨found, there, member⟩ | coming)
  · exact Or.inl ⟨found, grown place found there, member⟩
  · exact Or.inr coming

theorem Served.complete (served : state.Served) (call : Nat) (origin : CompletionOrigin) (outcome : FetchOutcome) :
    (state.complete call origin outcome).Served := by
  intro index part here
  refine (served index part here).leaves ⟨?_, ?_⟩
  · rintro place - (listed | ⟨completion, member, rest⟩)
    · exact Or.inl listed
    · exact Or.inr ⟨completion, List.mem_append_left _ member, rest⟩
  · rintro - ⟨completion, member, rest⟩
    exact ⟨completion, List.mem_append_left _ member, rest⟩

end FetchState

namespace CacheFetchOperation

theorem mem_listed_finish (queued : found.Queued) (result : Published) (member : index ∈ found.listed) :
    index ∈ (found.finish result).listed := by
  unfold finish
  split_ifs with done
  next => exact member
  next =>
    have none : found.done = Option.none := by simpa using done
    simpa [listed, queued.1 none] using member

theorem mem_listed_answer (queued : found.Queued) (result : Published) (member : index ∈ found.listed) :
    index ∈ (found.answer result).listed := by
  unfold answer
  split_ifs with done
  next => exact member
  next => exact mem_listed_finish queued result member

theorem mem_listed_unsubscribe (apart : other ≠ index) (member : other ∈ found.listed) :
    other ∈ (found.unsubscribe index).listed := by
  rcases List.mem_append.mp member with kept | kept
  · exact List.mem_append_left _ ((List.mem_erase_of_ne apart).mpr kept)
  · exact List.mem_append_right _ kept

end CacheFetchOperation

namespace FetchState

theorem Served.attach (served : state.Served) : (state.update operation .attachConsumer).Served :=
  served.update fun _ _ _ _ _ _ member => by simpa using member

theorem Served.release (served : state.Served) : (state.update operation .releaseConsumer).Served :=
  served.update fun _ _ _ _ _ _ member => by simpa using member

theorem Served.finish (served : state.Served) (linked : state.Linked) (result : Published) :
    (state.update operation fun found => found.finish result).Served :=
  served.update fun found there _ _ _ _ member =>
    CacheFetchOperation.mem_listed_finish (linked.queued found (List.mem_of_getElem? there)) result member

theorem Served.answer (served : state.Served) (linked : state.Linked) (result : Published) :
    (state.update operation fun found => found.answer result).Served :=
  served.update fun found there _ _ _ _ member =>
    CacheFetchOperation.mem_listed_answer (linked.queued found (List.mem_of_getElem? there)) result member

theorem Served.unsubscribe (served : state.Served)
    (claimed : ∀ call, state.calls[index]? = some call → call.completionClaimed = true) :
    (state.update operation fun found => found.unsubscribe index).Served := by
  refine served.update fun _ _ other call here unclaimed member =>
    CacheFetchOperation.mem_listed_unsubscribe ?_ member
  rintro rfl
  simp [claimed call here] at unclaimed

def SubscribesRightly (state : FetchState) : FetchAction → Prop
  | .advance index => ∀ call ∈ state.calls[index]?, ∀ operation ∈ call.stage.subscribesTo, ∀ found ∈ state.operations[operation]?,
    call.operationAttached = false → call.completionClaimed = false → found.abandoned = false
  | _ => True

instance (state : FetchState) : (action : FetchAction) → Decidable (state.SubscribesRightly action)
  | .advance index => inferInstanceAs (Decidable (∀ call ∈ state.calls[index]?, ∀ operation ∈ call.stage.subscribesTo,
    ∀ found ∈ state.operations[operation]?,
      call.operationAttached = false → call.completionClaimed = false → found.abandoned = false))
  | .fetch _ _ | .fetchDirect | .cancel _ | .proceed _ | .answer _ _ | .interrupt _ _ | .deliver _ _ | .retire _
  | .transfer _ _ | .cut _ _ => isTrue trivial

theorem Served.go (served : state.Served) (here : state.calls[index]? = some call) {stage : FetchStage}
    (invoking : ∀ operation owner, stage ≠ .invoking operation owner) (fitted : FetchCall.Fitted { call with stage := stage }) :
    (state.put index { call with stage := stage }).Served :=
  served.put here ⟨(served index call here).expecting, fun ⟨operation, owner, same⟩ => absurd same (invoking operation owner),
    fitted⟩

theorem not_abandoned_of_held (balanced : state.Balanced) (here : state.calls[index]? = some call)
    (held : call.operation = some operation ∧ call.operationAttached = true) (there : state.operations[operation]? = some found) :
    found.abandoned = false := by
  have counted := balanced.consumers operation
  have inside := @le_total _ _ _ _ (FetchCall.holds operation) here
  have one : 1 ≤ call.holds operation := by simp [FetchCall.holds, held]
  simp only [consumersIn, there, Option.map_some, Option.getD_some, FetchState.held] at counted
  cases abandoned : found.abandoned with
  | false => rfl
  | true =>
    have none := balanced.left found (List.mem_of_getElem? there) abandoned
    omega

theorem Served.advance (served : state.Served) (balanced : state.Balanced) (linked : state.Linked)
    (here : state.calls[index]? = some call) (rightly : state.SubscribesRightly (.advance index))
    (stepped : state.advance index call = some next) : next.Served := by
  obtain ⟨expecting, called, fitted⟩ := served index call here
  have fresh := linked.fresh index call here
  have go : ∀ stage : FetchStage, (∀ operation owner, stage ≠ .invoking operation owner) →
      FetchCall.Fitted { call with stage := stage } → (state.put index { call with stage := stage }).Served :=
    fun stage invoking fitted => served.go here invoking fitted
  unfold FetchState.advance at stepped
  dsimp only at stepped
  unfold FetchCall.Fitted at fitted
  cases stage : call.stage with
  | entered =>
    simp only [stage] at stepped
    split at stepped
    next =>
      cases stepped
      exact (go .returned (by simp) trivial).complete _ _ _
    next =>
      cases stepped
      split_ifs
      next => exact go .returned (by simp) trivial
      next => exact go .looking (by simp) trivial
  | looking =>
    simp only [stage, Option.map_eq_some_iff] at stepped
    obtain ⟨key, -, rfl⟩ := stepped
    split
    next => exact go _ (by simp) trivial
    next => exact (go (.attaching _ true) (by simp) trivial).register _ _
  | attaching operation owner =>
    simp only [stage, Option.map_eq_some_iff] at stepped
    obtain ⟨found, there, rfl⟩ := stepped
    have placedAt : ∀ attached : Bool,
        (state.put index { call with stage := placed call operation owner attached }).Served := by
      intro attached
      unfold placed
      split
      next => exact go _ (by simp) trivial
      next => cases owner <;> exact go _ (by simp) trivial
    split
    next => exact (placedAt true).attach
    next => exact placedAt false
    all_goals exact go _ (by simp) trivial
  | erasing operation =>
    simp only [stage] at stepped
    cases stepped
    exact (go .looking (by simp) trivial).erase
  | joining operation owner attached =>
    simp only [stage] at stepped fitted
    split_ifs at stepped
    next =>
      cases stepped
      exact go _ (by simp) trivial
    next =>
      cases stepped
      refine served.put here ⟨expecting, (by simp), ?_⟩
      exact fun _ => rfl
  | dropping operation owner attached =>
    simp only [stage, Option.some.injEq] at stepped
    subst stepped
    have moved : (state.put index { call with stage := if owner then .failing operation else .returned }).Served := by
      cases owner <;> exact go _ (by simp) trivial
    split_ifs
    all_goals simp_all [Served.release]
  | failing operation =>
    simp only [stage] at stepped
    cases stepped
    exact (go (.cleaning operation false) (by simp) trivial).finish
      (linked.go here (by simp [FetchCall.answers, stage]) (linked.keyed here (by simp [stage]) (by simp [stage])) (by simp [FetchStage.unjoined])) none
  | subscribing operation owner =>
    simp only [stage, Option.map_eq_some_iff] at stepped fitted
    obtain ⟨found, there, rfl⟩ := stepped
    split
    next refused =>
      have abandoned : found.abandoned = true := by
        unfold CacheFetchOperation.subscription at refused
        split_ifs at refused with given
        next => exact given
        next => split at refused <;> cases refused
      -- Who still holds an attachment is not refused; the others are those of the condition.
      have claimed : call.completionClaimed = true := by
        by_contra unclaimed
        have unclaimed : call.completionClaimed = false := by simpa using unclaimed
        cases attached : call.operationAttached with
        | true => simp [not_abandoned_of_held balanced here ⟨fitted unclaimed, attached⟩ there] at abandoned
        | false => simp [rightly call here operation (by simp [stage, FetchStage.subscribesTo]) found there attached unclaimed] at abandoned
      exact served.put here (.of_claimed claimed)
    next registered =>
      have listed : (state.update operation fun found => found.subscribe index).Served :=
        served.update fun found _ other _ _ _ member => by
          unfold CacheFetchOperation.subscribe
          split_ifs
          next => simpa [CacheFetchOperation.listed, or_assoc, or_comm, or_left_comm] using Or.inr member
          next => exact member
      have waits : (state.update operation fun found => found.subscribe index).Awaits index operation :=
        Or.inl ⟨found.subscribe index, by simp [FetchState.update, there],
          by simp [CacheFetchOperation.subscribe, registered, CacheFetchOperation.listed]⟩
      refine listed.put here ⟨fun other joined _ => ?_, (by simp), fun unclaimed => ?_⟩
      · obtain rfl := Option.some.inj joined
        exact waits
      · exact fitted unclaimed
    next result _ =>
      refine (served.complete index .own (.published operation result)).put here ⟨?_, fun _ _ => ?_, trivial⟩
      · intro other joined unclaimed
        have none := fresh.unjoined (by simp [stage, FetchStage.unjoined])
        simp [none] at joined
      · exact ⟨_, List.mem_append_right _ (List.mem_singleton_self _), rfl, rfl, rfl⟩
  | invoking operation owner =>
    simp only [stage] at stepped
    split_ifs at stepped with finished
    cases stepped
    have claimed : call.completionClaimed = true := by
      by_contra unclaimed
      obtain ⟨completion, member, same, origin, entered⟩ := called ⟨operation, owner, stage⟩ (by simpa using unclaimed)
      have settled := List.all_eq_true.mp finished completion member
      simp [same, origin, entered] at settled
    exact served.put here (.of_claimed claimed)
  | setting operation owner =>
    simp only [stage] at stepped fitted
    split_ifs at stepped with gone
    next =>
      cases stepped
      refine go _ (by simp) ?_
      change call.completionClaimed = true
      by_contra unclaimed
      have unclaimed : call.completionClaimed = false := by simpa using unclaimed
      have attached : call.subscriptionDetached = false := by
        by_contra detached
        simp [fresh.detached (by simpa using detached)] at unclaimed
      simp [attached, fitted unclaimed] at gone
    next =>
      cases stepped
      exact served.put here ⟨expecting, (by simp), trivial⟩
  | unsubscribing operation owner =>
    simp only [stage] at stepped fitted
    cases stepped
    refine (go (.starting operation owner) (by simp) trivial).unsubscribe fun part present => ?_
    rw [lookup_put here, if_pos rfl] at present
    obtain rfl := Option.some.inj present
    exact fitted
  | starting operation owner =>
    simp only [stage] at stepped
    cases stepped
    split_ifs
    next => exact (go .returned (by simp) trivial).update fun _ _ _ _ _ _ member => member
    next => exact go .returned (by simp) trivial
  | waiting operation owner attached =>
    simp only [stage, Option.map_eq_some_iff] at stepped
    obtain ⟨result, -, rfl⟩ := stepped
    refine served.put here ⟨expecting, ?_, ?_⟩
    · cases owner <;> exact (by simp)
    · cases owner <;> trivial
  | cleaning operation attached =>
    simp only [stage] at stepped
    cases stepped
    exact (go (.releasing operation attached) (by simp) trivial).erase
  | releasing operation attached =>
    simp only [stage, Option.some.injEq] at stepped
    subst stepped
    split_ifs
    next => exact (go .returned (by simp) trivial).release
    next => exact go .returned (by simp) trivial
  | transferring | returned => simp [stage] at stepped

theorem Served.exchange (served : state.Served) (listed : state.completions[index]? = some completion)
    (here : state.calls[completion.call]? = some call) (passed : completion.stage = .entered → changed.completionClaimed = true)
    (serves : state.Serves completion.call changed) :
    ((state.putCompletion index moved).put completion.call changed).Served := by
  have kept : ∀ (other : Nat) (part : FetchCall), (other = completion.call → part.completionClaimed = changed.completionClaimed) →
      ∀ waiting ∈ state.completions, waiting.call = other → waiting.stage = .entered → part.completionClaimed = false →
        waiting ∈ state.completions.set index moved := by
    intro other part same waiting member owner entered unclaimed
    obtain ⟨place, at?⟩ := List.mem_iff_getElem?.mp member
    refine List.mem_iff_getElem?.mpr ⟨place, ?_⟩
    rw [lookup_set listed, if_neg]
    · exact at?
    · rintro rfl
      obtain rfl := Option.some.inj (listed.symm.trans at?)
      rw [same owner.symm, passed entered] at unclaimed
      cases unclaimed
  have leaves : ∀ (other : Nat) (part : FetchCall), (other = completion.call → part.completionClaimed = changed.completionClaimed) →
      state.Leaves ((state.putCompletion index moved).put completion.call changed) other part := by
    intro other part same
    refine ⟨?_, ?_⟩
    · rintro place unclaimed (inside | ⟨waiting, member, owner, origin, entered⟩)
      · exact Or.inl inside
      · exact Or.inr ⟨waiting, kept other part same waiting member owner entered unclaimed, owner, origin, entered⟩
    · rintro unclaimed ⟨waiting, member, owner, origin, entered⟩
      exact ⟨waiting, kept other part same waiting member owner entered unclaimed, owner, origin, entered⟩
  exact forall_lookup_set here (serves.leaves (leaves _ _ fun _ => rfl)) fun other part apart present =>
    (served other part present).leaves (leaves _ _ fun same => absurd same apart)

theorem Served.proceed (served : state.Served) (linked : state.Linked) (listed : state.completions[index]? = some completion)
    (here : state.calls[completion.call]? = some call) (stepped : state.proceed index completion call = some next) :
    next.Served := by
  have serves := served completion.call call here
  have claimed := linked.claimed_of_winning listed here
  have alone : ∀ moved : Completion, (completion.stage = .entered → call.completionClaimed = true) →
      (state.putCompletion index moved).Served := by
    intro moved passed
    rw [← put_same (show (state.putCompletion index moved).calls[completion.call]? = some call from here)]
    exact served.exchange listed here passed serves
  unfold FetchState.proceed at stepped
  dsimp only at stepped
  cases stage : completion.stage with
  | entered =>
    simp only [stage] at stepped
    split_ifs at stepped with taken
    next =>
      cases stepped
      exact alone _ fun _ => taken
    next =>
      cases stepped
      refine served.exchange listed here (fun _ => rfl) (.of_claimed rfl)
  | claimed =>
    simp only [stage] at stepped
    cases stepped
    exact alone _ (by simp [stage])
  | detaching =>
    have claimed := claimed (by simp [stage]) (by simp [stage])
    simp only [stage] at stepped
    by_cases gone : call.subscriptionDetached = true
    · rw [if_pos gone] at stepped
      cases stepped
      exact alone _ (by simp [stage])
    · rw [if_neg gone] at stepped
      split at stepped
      all_goals
        cases stepped
        exact served.exchange listed here (by simp [stage]) (.of_claimed claimed)
  | unsubscribing operation attached =>
    have claimed := claimed (by simp [stage]) (by simp [stage])
    simp only [stage] at stepped
    cases stepped
    refine (alone { completion with stage := if attached then .releasing operation else .invoking }
      (by simp [stage])).unsubscribe fun part present => ?_
    obtain rfl := Option.some.inj (here.symm.trans present)
    exact claimed
  | releasing operation =>
    simp only [stage] at stepped
    cases stepped
    exact (alone { completion with stage := .invoking } (by simp [stage])).release
  | invoking =>
    have claimed := claimed (by simp [stage]) (by simp [stage])
    simp only [stage] at stepped
    cases stepped
    exact served.exchange listed here (by simp [stage]) (.of_claimed claimed)
  | returned => simp [stage] at stepped

theorem Served.transfer (served : state.Served) (here : state.calls[index]? = some call) {attached : Bool} :
    (state.put index { call with stage := .waiting operation true attached }).Served :=
  served.go here (by simp) trivial

theorem Served.step {action : FetchAction} (served : state.Served) (balanced : state.Balanced) (linked : state.Linked)
    (rightly : state.SubscribesRightly action) (stepped : state.step action = some next) : next.Served := by
  have appended : ∀ added : FetchCall, added.stage = .entered → added.joined = none →
      ({ state with calls := state.calls ++ [added] } : FetchState).Served := by
    intro added entered joined
    refine forall_lookup_concat ⟨fun operation was => ?_, fun ⟨_, _, same⟩ => ?_, ?_⟩ fun other part present => ?_
    · simp [joined] at was
    · simp [entered] at same
    · simp [FetchCall.Fitted, entered]
    · have kept := served other part present
      exact ⟨kept.expecting, kept.called, kept.fitted⟩
  cases action with
  | fetch | fetchDirect =>
    cases stepped
    exact appended _ rfl rfl
  | advance index =>
    obtain ⟨call, here, advanced⟩ := Option.bind_eq_some_iff.mp stepped
    exact served.advance balanced linked here rightly advanced
  | cancel index =>
    obtain ⟨call, here, cancelled⟩ := Option.bind_eq_some_iff.mp stepped
    have serves := served index call here
    have flagged : (state.put index { call with cancelled := true }).Served :=
      served.put here ⟨serves.expecting, serves.called, serves.fitted⟩
    split_ifs at cancelled
    · cases cancelled
      exact flagged.complete _ _ _
    · cases cancelled
      exact flagged
  | proceed index =>
    obtain ⟨completion, listed, rest⟩ := Option.bind_eq_some_iff.mp stepped
    obtain ⟨call, here, proceeded⟩ := Option.bind_eq_some_iff.mp rest
    exact served.proceed linked listed here proceeded
  | answer operation result =>
    obtain ⟨found, -, answered⟩ := Option.bind_eq_some_iff.mp stepped
    split_ifs at answered
    cases answered
    exact served.answer linked result
  | interrupt operation payload =>
    obtain ⟨found, -, interrupted⟩ := Option.bind_eq_some_iff.mp stepped
    split_ifs at interrupted
    cases interrupted
    exact served.finish linked _
  | deliver operation pick =>
    obtain ⟨found, there, rest⟩ := Option.bind_eq_some_iff.mp stepped
    obtain ⟨result, done, picked⟩ := Option.bind_eq_some_iff.mp rest
    obtain ⟨chosen, at?, rfl⟩ := Option.map_eq_some_iff.mp picked
    intro index call here
    refine (served index call here).leaves ⟨?_, ?_⟩
    · rintro place - (⟨other, there', member⟩ | ⟨waiting, member, fits⟩)
      · by_cases same : operation = place
        · subst same
          obtain rfl := Option.some.inj (there.symm.trans there')
          by_cases mine : chosen = index
          · exact Or.inr ⟨_, List.mem_append_right _ (List.mem_singleton_self _), mine, rfl, rfl⟩
          · refine Or.inl ⟨{ found with delivering := found.delivering.eraseIdx pick }, ?_, ?_⟩
            · simp [FetchState.complete, FetchState.update, there]
            · rcases List.mem_append.mp member with kept | kept
              · exact List.mem_append_left _ kept
              · refine List.mem_append_right _ ?_
                obtain ⟨spot, at!⟩ := List.mem_iff_getElem?.mp kept
                refine List.mem_eraseIdx_iff_getElem?.mpr ⟨spot, ?_, at!⟩
                rintro rfl
                exact mine (Option.some.inj (at?.symm.trans at!))
        · exact Or.inl ⟨other, by simpa [FetchState.complete, FetchState.update, same] using there', member⟩
      · exact Or.inr ⟨waiting, List.mem_append_left _ member, fits⟩
    · rintro - ⟨waiting, member, fits⟩
      exact ⟨waiting, List.mem_append_left _ member, fits⟩
  | retire operation =>
    obtain ⟨found, -, retired⟩ := Option.bind_eq_some_iff.mp stepped
    split_ifs at retired
    cases retired
    exact served.erase
  | transfer index result =>
    obtain ⟨call, here, ended⟩ := Option.bind_eq_some_iff.mp stepped
    split at ended
    next operation attached stage =>
      cases ended
      exact (served.transfer here).answer (linked.transfer here stage) result
    next => cases ended
  | cut index payload =>
    obtain ⟨call, here, ended⟩ := Option.bind_eq_some_iff.mp stepped
    split at ended
    next operation attached stage =>
      split_ifs at ended
      cases ended
      exact (served.transfer here).finish (linked.transfer here stage) _
    next => cases ended

def Delivered (state : FetchState) (operation : Nat) : Prop :=
  ∃ found, state.operations[operation]? = some found ∧ found.done.isSome = true ∧ found.delivering = [] ∧
    ∀ completion ∈ state.completions, completion.origin = .publication operation → completion.stage = .returned

def Cancelling (state : FetchState) (index : Nat) (call : FetchCall) : Prop :=
  call.cancelled = true ∧ ∃ completion ∈ state.completions, completion.call = index ∧
    completion.origin = .cancellation ∧ completion.stage ≠ .entered ∧ completion.stage ≠ .returned

structure Answers (state : FetchState) (index : Nat) (call : FetchCall) : Prop where
  once : call.outcomes.length ≤ 1
  answered : ∀ operation, call.joined = some operation → state.Delivered operation →
    call.outcomes.length = 1 ∨ state.Cancelling index call

theorem not_awaits_of_delivered (linked : state.Linked) (delivered : state.Delivered operation) :
    ¬ state.Awaits index operation := by
  obtain ⟨found, there, done, swapped, returned⟩ := delivered
  rintro (⟨other, there', member⟩ | ⟨completion, member, -, origin, entered⟩)
  · obtain rfl := Option.some.inj (there.symm.trans there')
    have taken := (linked.queued found (List.mem_of_getElem? there)).2 done
    simp [CacheFetchOperation.listed, swapped, taken] at member
  · simp [returned completion member origin] at entered

theorem answers_of_served (served : state.Served) (linked : state.Linked) (here : state.calls[index]? = some call) :
    state.Answers index call := by
  have once := linked.once index call here
  have fresh := linked.fresh index call here
  constructor
  case once =>
    have bounded := call.completionClaimed.toNat_le
    omega
  case answered =>
    intro operation joined delivered
    have claimed : call.completionClaimed = true := by
      by_contra unclaimed
      exact not_awaits_of_delivered linked delivered
        ((served index call here).expecting operation joined (by simpa using unclaimed))
    rw [claimed, Bool.toNat_true] at once
    rcases Nat.eq_zero_or_pos (total (Completion.winning index) state.completions) with none | some
    · exact Or.inl (by omega)
    -- Somebody is on the way; it is neither a callback of the operation nor the call itself.
    · obtain ⟨completion, member, wins⟩ : ∃ completion ∈ state.completions, completion.winning index ≠ 0 := by
        by_contra idle
        push Not at idle
        have empty := total_eq_zero_iff.mpr idle
        omega
      obtain ⟨same, entered, returned⟩ : completion.call = index ∧ completion.stage ≠ .entered ∧ completion.stage ≠ .returned := by
        by_contra other
        exact wins (if_neg other)
      obtain ⟨part, present, explained⟩ := linked.origins completion member
      obtain rfl := Option.some.inj (here.symm.trans (same ▸ present))
      refine Or.inr ?_
      unfold Explains at explained
      split at explained
      next origin => exact ⟨explained, completion, member, same, origin, entered, returned⟩
      next =>
        have unjoined : call.joined = none := by
          rcases explained with gone | answers
          · exact absurd gone returned
          · unfold FetchCall.answers at answers
            split at answers
            next at? => exact fresh.unjoined (by simp [at?, FetchStage.unjoined])
            next => exact (fresh.direct (by simpa using answers)).1
            next => cases answers
        simp [unjoined] at joined
      next place origin =>
        obtain rfl := Option.some.inj (joined.symm.trans explained.1)
        obtain ⟨-, -, -, -, settled⟩ := delivered
        exact absurd (settled completion member origin) returned

structure Sound (state : FetchState) : Prop where
  balanced : state.Balanced
  linked : state.Linked
  served : state.Served

theorem initial_sound : ({} : FetchState).Sound :=
  ⟨initial_balanced, initial_linked, fun _ _ here => by simp at here⟩

theorem Sound.step {action : FetchAction} (sound : state.Sound) (rightly : state.SubscribesRightly action)
    (stepped : state.step action = some next) : next.Sound :=
  ⟨sound.balanced.step stepped, sound.linked.step stepped, sound.served.step sound.balanced sound.linked rightly stepped⟩

theorem sound_of_run {actions : List FetchAction} {final : FetchState}
    (rightly : StepsMeet FetchState.step FetchState.SubscribesRightly {} actions)
    (ran : runSteps FetchState.step {} actions = some final) : final.Sound :=
  runSteps_keeps_meeting Sound.step initial_sound rightly ran

end FetchState

theorem consumers_answered {actions : List FetchAction} {final : FetchState}
    (rightly : StepsMeet FetchState.step FetchState.SubscribesRightly {} actions)
    (ran : runSteps FetchState.step {} actions = some final) (here : final.calls[index]? = some call) :
    final.Answers index call := by
  have sound := FetchState.sound_of_run rightly ran
  exact FetchState.answers_of_served sound.served sound.linked here

def sharedFetch : List FetchAction :=
  [.fetch .async ['k'], .advance 0, .advance 0, .advance 0, .advance 0, .advance 0, .advance 0, .advance 0,
    .fetch .async ['k'], .advance 1, .advance 1, .advance 1, .advance 1, .advance 1, .advance 1, .advance 1,
    .answer 0 (some { statusCode := 200, failure := .none, content := [] }), .deliver 0 0, .deliver 0 0,
    .proceed 0, .proceed 0, .proceed 0, .proceed 0, .proceed 0, .proceed 0,
    .proceed 1, .proceed 1, .proceed 1, .proceed 1, .proceed 1, .proceed 1, .retire 0]

def forgottenFetch : List FetchAction :=
  [.fetch .async ['k'], .advance 0, .advance 0, .advance 0, .advance 0, .advance 0, .advance 0, .advance 0,
    .cancel 0, .proceed 0, .proceed 0, .proceed 0, .proceed 0, .proceed 0, .proceed 0,
    .answer 0 (some { statusCode := 200, failure := .none, content := [] }),
    .fetch .async ['k'], .advance 1, .advance 1, .advance 1, .advance 1, .advance 1, .advance 1, .retire 0]

theorem consumers_answered_shared : ∃ final call, runSteps FetchState.step {} sharedFetch = some final ∧
    final.calls[1]? = some call ∧ final.Answers 1 call :=
  ⟨_, _, rfl, rfl, consumers_answered
    (show StepsMeet FetchState.step FetchState.SubscribesRightly {} sharedFetch by decide) rfl rfl⟩

theorem consumers_forgotten : ∃ final call, runSteps FetchState.step {} forgottenFetch = some final ∧
    final.calls[1]? = some call ∧ call.cancelled = false ∧ call.stage = .returned ∧ call.joined = some 0 ∧
      final.Delivered 0 ∧ call.outcomes = [] ∧ ¬ final.Answers 1 call := by
  refine ⟨_, _, rfl, rfl, rfl, rfl, rfl, ⟨_, rfl, rfl, rfl, by decide⟩, rfl, fun answers => ?_⟩
  rcases answers.answered 0 rfl ⟨_, rfl, rfl, rfl, by decide⟩ with invoked | ⟨cancelled, -⟩
  · cases invoked
  · cases cancelled

end Serving

end SubConverter.Handler
