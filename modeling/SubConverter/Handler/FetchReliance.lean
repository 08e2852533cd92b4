import Mathlib
import SubConverter.Handler.FetchLinks

set_option autoImplicit false

namespace SubConverter.Handler

section Reliance

variable {state next : FetchState} {call changed : FetchCall} {completion moved : Completion} {index operation place : Nat}
  {found : CacheFetchOperation} {change : CacheFetchOperation → CacheFetchOperation} {result : Published}

def FetchStage.late : FetchStage → Bool
  | .subscribing _ _ | .invoking _ _ | .setting _ _ | .unsubscribing _ _ | .starting _ _ | .returned => true
  | _ => false

def FetchStage.ends : FetchStage → Option Nat
  | .failing operation | .transferring operation _ => some operation
  | _ => none

namespace FetchCall

def reliance (call : FetchCall) : Option (Nat × Bool) :=
  match call.stage with
  | .joining operation _ attached => if call.completionClaimed then none else some (operation, attached)
  | .transferring operation attached | .waiting operation _ attached => some (operation, attached)
  | _ => if call.completionClaimed then none else call.operation.map fun operation => (operation, call.operationAttached)

def CutOff (call : FetchCall) (operation : Nat) : Prop :=
  call.cancelled = true ∧ ∃ attached, call.stage = .waiting operation true attached

theorem holds_of_reliance (relies : call.reliance = some (operation, true)) : 1 ≤ call.holds operation := by
  unfold reliance at relies
  split at relies
  next stage =>
    split_ifs at relies
    simp_all [holds, FetchStage.holds]
  next stage => simp_all [holds, FetchStage.holds]
  next stage => simp_all [holds, FetchStage.holds]
  next =>
    split_ifs at relies
    obtain ⟨taken, mine, equal⟩ := Option.map_eq_some_iff.mp relies
    simp_all [holds]

theorem reliance_of_late (late : call.stage.late = true) (unclaimed : call.completionClaimed = false)
    (mine : call.operation = some operation) : call.reliance = some (operation, call.operationAttached) := by
  unfold FetchStage.late at late
  unfold reliance
  split at late <;> simp_all

theorem not_cutOff_of_late (late : call.stage.late = true) : ¬ call.CutOff operation := by
  rintro ⟨-, attached, stage⟩
  simp [stage, FetchStage.late] at late

end FetchCall

namespace CacheFetchOperation

def Shaped (found : CacheFetchOperation) : Prop :=
  found.answered = found.done ∨ found.answered = none ∧ ∃ result, found.done = some result ∧ result.good = false

theorem Shaped.answered_of_good (shaped : found.Shaped) (done : found.done = some result) (good : result.good = true) :
    found.answered = found.done := by
  rcases shaped with own | ⟨-, other, ended, bad⟩
  · exact own
  · obtain rfl := Option.some.inj (done.symm.trans ended)
    rw [good] at bad
    cases bad

theorem Shaped.answered_of_none (shaped : found.Shaped) (none : found.done = none) : found.answered = found.done := by
  rcases shaped with own | ⟨-, other, ended, -⟩
  · exact own
  · rw [none] at ended
    cases ended

structure Extends (changed found : CacheFetchOperation) : Prop where
  done : ∀ result, found.done = some result → changed.done = some result
  answered : ∀ result, found.answered = some result → changed.answered = some result
  shaped : found.Shaped → changed.Shaped

theorem extends_of_same {changed : CacheFetchOperation} (done : changed.done = found.done)
    (answered : changed.answered = found.answered) : changed.Extends found := by
  refine ⟨fun _ => done.trans, fun _ => answered.trans, fun shaped => ?_⟩
  unfold Shaped
  rw [done, answered]
  exact shaped

@[simp] theorem attach_answered : found.attachConsumer.answered = found.answered := by
  unfold attachConsumer
  split_ifs <;> rfl

@[simp] theorem release_answered : found.releaseConsumer.answered = found.answered := by
  unfold releaseConsumer
  split_ifs <;> rfl

@[simp] theorem subscribe_answered : (found.subscribe index).answered = found.answered := by
  unfold subscribe
  split_ifs <;> rfl

theorem finish_extends (shaped : found.Shaped) (bad : result.good = false) : (found.finish result).Extends found := by
  unfold finish
  split_ifs with done
  next => exact extends_of_same rfl rfl
  next =>
    have unended : found.done = none := by simpa using done
    have unanswered : found.answered = none := (shaped.answered_of_none unended).trans unended
    exact ⟨fun _ ended => by simp [unended] at ended, fun _ answered => answered, fun _ => Or.inr ⟨unanswered, result, rfl, bad⟩⟩

theorem answer_extends (shaped : found.Shaped) : (found.answer result).Extends found := by
  unfold answer
  split_ifs with done
  next => exact extends_of_same rfl rfl
  next =>
    have unended : found.done = none := by simpa using done
    have unanswered : found.answered = none := (shaped.answered_of_none unended).trans unended
    refine ⟨fun _ ended => by simp [unended] at ended, fun _ answered => by simp [unanswered] at answered, fun _ => ?_⟩
    exact Or.inl (by simp [finish, unended])

theorem answer_own (own : found.answered = found.done) : (found.answer result).answered = (found.answer result).done := by
  unfold answer
  split_ifs with done
  next => exact own
  next => simp [finish, done]

theorem finish_own (own : found.answered = found.done) (done : found.done ≠ none) :
    (found.finish result).answered = (found.finish result).done := by
  unfold finish
  rw [if_pos (Option.isSome_iff_ne_none.mpr done)]
  exact own

end CacheFetchOperation

namespace FetchState

def resultOf (state : FetchState) (operation : Nat) : Option Published := state.operations[operation]?.bind CacheFetchOperation.done

def answerOf (state : FetchState) (operation : Nat) : Option Published :=
  state.operations[operation]?.bind CacheFetchOperation.answered

structure Relies (state : FetchState) (call : FetchCall) : Prop where
  unplaced : call.stage.late = false → call.operation = none
  subscribing : ∀ operation owner, call.stage = .subscribing operation owner → call.completionClaimed = false →
    call.operation = some operation
  anchored : ∀ operation attached, call.reliance = some (operation, attached) →
    attached = true ∨ (state.resultOf operation).isSome = true
  owned : ∀ operation attached, call.reliance = some (operation, attached) →
    state.answerOf operation = state.resultOf operation ∨ call.CutOff operation
  received : ∀ operation owner result, call.received = some (operation, owner, result) →
    owner = true ∧ call.cancelled = true ∨ state.answerOf operation = some result
  outcomes : ∀ operation result, .published operation result ∈ call.outcomes → state.answerOf operation = some result

structure Publishes (state : FetchState) (completion : Completion) (operation : Nat) (result : Published) : Prop where
  ended : state.resultOf operation = some result
  entered : completion.stage = .entered → ∀ call, state.calls[completion.call]? = some call →
    call.completionClaimed = false → call.operation = some operation
  answered : completion.stage ≠ .entered → completion.stage ≠ .returned → state.answerOf operation = some result

structure Relied (state : FetchState) : Prop where
  shaped : ∀ found ∈ state.operations, found.Shaped
  relies : ∀ (index : Nat) (call : FetchCall), state.calls[index]? = some call → state.Relies call
  listed : ∀ (operation : Nat) (found : CacheFetchOperation), state.operations[operation]? = some found →
    ∀ index ∈ found.listed, ∀ call, state.calls[index]? = some call → call.completionClaimed = false →
      call.operation = some operation
  publishes : ∀ completion ∈ state.completions, ∀ operation result, completion.outcome = .published operation result →
    state.Publishes completion operation result

theorem Relied.put (relied : state.Relied) (here : state.calls[index]? = some call) (relies : state.Relies changed)
    (kept : changed.completionClaimed = false → call.completionClaimed = false ∧
      ∀ operation, call.operation = some operation → changed.operation = some operation) : (state.put index changed).Relied := by
  have mine : ∀ (other : Nat) (part : FetchCall) (operation : Nat), (∀ part, state.calls[other]? = some part →
      part.completionClaimed = false → part.operation = some operation) → (state.put index changed).calls[other]? = some part →
        part.completionClaimed = false → part.operation = some operation := by
    intro other part operation before present unclaimed
    rw [lookup_put here] at present
    split_ifs at present with same
    next =>
      subst same
      obtain rfl := Option.some.inj present
      exact (kept unclaimed).2 operation (before call here (kept unclaimed).1)
    next => exact before part present unclaimed
  constructor
  case shaped => exact relied.shaped
  case relies =>
    refine forall_lookup_set here ?_ fun other part _ present => ?_
    · exact ⟨relies.1, relies.2, relies.3, relies.4, relies.5, relies.6⟩
    · have kept := relied.relies other part present
      exact ⟨kept.1, kept.2, kept.3, kept.4, kept.5, kept.6⟩
  case listed =>
    intro operation found there other member part
    exact mine other part operation (relied.listed operation found there other member)
  case publishes =>
    intro completion member operation result outcome
    obtain ⟨ended, entered, answered⟩ := relied.publishes completion member operation result outcome
    exact ⟨ended, fun stage part => mine completion.call part operation (entered stage), answered⟩

theorem resultOf_update : (state.update operation change).resultOf place =
    if operation = place then state.operations[place]?.bind fun found => (change found).done else state.resultOf place := by
  simp only [resultOf, FetchState.update, List.getElem?_modify]
  split_ifs with same
  next => cases state.operations[place]? <;> simp
  next => simp

theorem answerOf_update : (state.update operation change).answerOf place =
    if operation = place then state.operations[place]?.bind fun found => (change found).answered else state.answerOf place := by
  simp only [answerOf, FetchState.update, List.getElem?_modify]
  split_ifs with same
  next => cases state.operations[place]? <;> simp
  next => simp

theorem Relied.update (relied : state.Relied)
    (extended : ∀ found ∈ state.operations, found.Shaped → (change found).Extends found)
    (listed : ∀ found, state.operations[operation]? = some found → ∀ index ∈ (change found).listed, index ∈ found.listed ∨
      ∀ call, state.calls[index]? = some call → call.completionClaimed = false → call.operation = some operation)
    (owned : ∀ found, state.operations[operation]? = some found → found.answered = found.done →
      (change found).answered = (change found).done ∨
        ∀ (index : Nat) (call : FetchCall) (attached : Bool), state.calls[index]? = some call →
          call.reliance = some (operation, attached) → call.CutOff operation) :
    (state.update operation change).Relied := by
  have ended : ∀ place result, state.resultOf place = some result → (state.update operation change).resultOf place = some result := by
    intro place result was
    rw [resultOf_update]
    split_ifs
    next =>
      obtain ⟨found, there, done⟩ := Option.bind_eq_some_iff.mp was
      have member := List.mem_of_getElem? there
      simpa [there] using (extended found member (relied.shaped found member)).done result done
    next => exact was
  have answered : ∀ place result, state.answerOf place = some result →
      (state.update operation change).answerOf place = some result := by
    intro place result was
    rw [answerOf_update]
    split_ifs
    next =>
      obtain ⟨found, there, told⟩ := Option.bind_eq_some_iff.mp was
      have member := List.mem_of_getElem? there
      simpa [there] using (extended found member (relied.shaped found member)).answered result told
    next => exact was
  constructor
  case shaped => exact forall_modify relied.shaped fun found member shaped => (extended found member shaped).shaped shaped
  case relies =>
    intro index call here
    obtain ⟨placed, subscribing, anchored, own, received, outcomes⟩ := relied.relies index call here
    refine ⟨placed, subscribing, fun place attached relies => ?_, fun place attached relies => ?_,
      fun place owner result got => (received place owner result got).imp_right (answered place result),
      fun place result got => answered place result (outcomes place result got)⟩
    · refine (anchored place attached relies).imp_right fun was => ?_
      obtain ⟨result, was⟩ := Option.isSome_iff_exists.mp was
      simp [ended place result was]
    · rcases own place attached relies with same | cut
      · rw [answerOf_update, resultOf_update]
        split_ifs with at?
        next =>
          subst at?
          cases there : state.operations[operation]? with
          | none => simp
          | some found =>
            simp only [answerOf, resultOf, there, Option.bind_some] at same ⊢
            exact (owned found there same).imp_right fun cut => cut index call attached here relies
        next => exact Or.inl same
      · exact Or.inr cut
  case listed =>
    intro place found there index member
    simp only [FetchState.update, List.getElem?_modify] at there
    split_ifs at there with same
    next =>
      subst same
      obtain ⟨before, old, rfl⟩ := Option.map_eq_some_iff.mp there
      rcases listed before old index member with member | new
      · exact relied.listed operation before old index member
      · exact new
    next => exact relied.listed place found (by simpa using there) index member
  case publishes =>
    intro completion member place result outcome
    obtain ⟨was, entered, told⟩ := relied.publishes completion member place result outcome
    exact ⟨ended place result was, entered, fun entered returned => answered place result (told entered returned)⟩

theorem Relied.plain (relied : state.Relied) (done : ∀ found : CacheFetchOperation, (change found).done = found.done)
    (answered : ∀ found : CacheFetchOperation, (change found).answered = found.answered)
    (listed : ∀ found : CacheFetchOperation, ∀ index ∈ (change found).listed, index ∈ found.listed) :
    (state.update operation change).Relied :=
  relied.update (fun found _ _ => CacheFetchOperation.extends_of_same (done found) (answered found))
    (fun found _ index member => Or.inl (listed found index member)) fun found _ own => Or.inl (by rw [answered, done, own])

theorem Relied.attach (relied : state.Relied) : (state.update operation .attachConsumer).Relied :=
  relied.plain (by simp) (by simp) (by simp)

theorem Relied.release (relied : state.Relied) : (state.update operation .releaseConsumer).Relied :=
  relied.plain (by simp) (by simp) (by simp)

theorem Relied.unsubscribe (relied : state.Relied) : (state.update operation fun found => found.unsubscribe index).Relied :=
  relied.plain (fun _ => rfl) (fun _ => rfl) fun _ => CacheFetchOperation.unsubscribe_listed

theorem Relied.answer (relied : state.Relied) (result : Published) :
    (state.update operation fun found => found.answer result).Relied :=
  relied.update (fun _ _ => CacheFetchOperation.answer_extends)
    (fun _ _ index member => Or.inl (CacheFetchOperation.answer_listed result index member))
    fun _ _ own => Or.inl (CacheFetchOperation.answer_own own)

theorem Relied.finish (relied : state.Relied) (bad : result.good = false)
    (alone : ∀ (index : Nat) (call : FetchCall), state.calls[index]? = some call →
      call.reliance = some (operation, true) → call.CutOff operation) :
    (state.update operation fun found => found.finish result).Relied := by
  refine relied.update (fun _ _ shaped => CacheFetchOperation.finish_extends shaped bad)
    (fun _ _ index member => Or.inl (CacheFetchOperation.finish_listed result index member)) fun found there own => ?_
  by_cases done : found.done = none
  · refine Or.inr fun index call attached here relies => ?_
    rcases (relied.relies index call here).anchored operation attached relies with rfl | ended
    · exact alone index call here relies
    · simp [resultOf, there, done] at ended
  · exact Or.inl (CacheFetchOperation.finish_own own done)

theorem Relied.erase (relied : state.Relied) : (state.erase operation).Relied :=
  ⟨relied.shaped, fun index call here =>
    have kept := relied.relies index call here
    ⟨kept.1, kept.2, kept.3, kept.4, kept.5, kept.6⟩, relied.listed,
    fun completion member operation result outcome =>
      have kept := relied.publishes completion member operation result outcome
      ⟨kept.1, kept.2, kept.3⟩⟩

theorem Relied.register (relied : state.Relied) (key : Text) (ownerKind : CacheFetchOwnerKind) :
    (state.register key ownerKind).Relied := by
  have results : ∀ place, (state.register key ownerKind).resultOf place = state.resultOf place := by
    intro place
    simp only [resultOf, FetchState.register, lookup_concat]
    split_ifs with last
    next => simp [last]
    next => rfl
  have answers : ∀ place, (state.register key ownerKind).answerOf place = state.answerOf place := by
    intro place
    simp only [answerOf, FetchState.register, lookup_concat]
    split_ifs with last
    next => simp [last]
    next => rfl
  constructor
  case shaped =>
    intro found member
    rcases List.mem_append.mp member with old | new
    · exact relied.shaped found old
    · rw [List.mem_singleton.mp new]
      exact Or.inl rfl
  case relies =>
    intro index call here
    obtain ⟨placed, subscribing, anchored, owned, received, outcomes⟩ := relied.relies index call here
    exact ⟨placed, subscribing, by simpa only [results] using anchored, by simpa only [results, answers] using owned,
      by simpa only [answers] using received, by simpa only [answers] using outcomes⟩
  case listed =>
    exact forall_lookup_concat (fun _ member => by simp [CacheFetchOperation.listed] at member) relied.listed
  case publishes =>
    intro completion member operation result outcome
    obtain ⟨ended, entered, answered⟩ := relied.publishes completion member operation result outcome
    exact ⟨by rw [results, ended], entered, by simpa only [answers] using answered⟩

theorem Relied.complete (relied : state.Relied) {origin : CompletionOrigin} {outcome : FetchOutcome}
    (publishes : ∀ operation result, outcome = .published operation result → state.resultOf operation = some result ∧
      ∀ call, state.calls[index]? = some call → call.completionClaimed = false → call.operation = some operation) :
    (state.complete index origin outcome).Relied := by
  constructor
  case shaped => exact relied.shaped
  case relies =>
    intro other part present
    have kept := relied.relies other part present
    exact ⟨kept.1, kept.2, kept.3, kept.4, kept.5, kept.6⟩
  case listed => exact relied.listed
  case publishes =>
    intro completion member operation result same
    rcases List.mem_append.mp member with old | new
    · have kept := relied.publishes completion old operation result same
      exact ⟨kept.1, kept.2, kept.3⟩
    · obtain rfl := List.mem_singleton.mp new
      have added := publishes operation result same
      exact ⟨added.1, fun _ => added.2, fun entered => absurd rfl entered⟩

theorem Relied.go (relied : state.Relied) (here : state.calls[index]? = some call) {stage : FetchStage}
    (relies : state.Relies { call with stage := stage }) : (state.put index { call with stage := stage }).Relied :=
  relied.put here relies fun unclaimed => ⟨unclaimed, fun _ mine => mine⟩

theorem Relies.idle (relies : state.Relies call) {stage : FetchStage} (unplaced : call.operation = none)
    (subscribing : ∀ operation owner, stage ≠ .subscribing operation owner)
    (none : ({ call with stage := stage } : FetchCall).reliance = none) : state.Relies { call with stage := stage } := by
  obtain ⟨-, -, -, -, received, outcomes⟩ := relies
  exact ⟨fun _ => unplaced, fun operation owner same => absurd same (subscribing operation owner),
    fun _ _ relies => by simp [none] at relies, fun _ _ relies => by simp [none] at relies, received, outcomes⟩

theorem Relies.later (relies : state.Relies call) (late : call.stage.late = true) (later : changed.stage.late = true)
    (subscribing : ∀ operation owner, changed.stage ≠ .subscribing operation owner) (operation : changed.operation = call.operation)
    (attached : changed.operationAttached = call.operationAttached) (claimed : changed.completionClaimed = call.completionClaimed)
    (cancelled : changed.cancelled = call.cancelled) (got : changed.received = call.received)
    (outcomes : changed.outcomes = call.outcomes) : state.Relies changed := by
  have same : changed.reliance = call.reliance := by
    unfold FetchStage.late at late later
    unfold FetchCall.reliance
    split at late <;> split at later <;> simp_all
  obtain ⟨-, -, anchored, owned, received, told⟩ := relies
  refine ⟨fun early => ?_, fun operation owner stage => absurd stage (subscribing operation owner), by rwa [same],
    fun place attached relies => ?_, by rwa [got, cancelled], by rwa [outcomes]⟩
  · rw [later] at early
    cases early
  · rw [same] at relies
    exact (owned place attached relies).imp_right fun cut => absurd cut (FetchCall.not_cutOff_of_late late)

theorem Relies.attaching (relies : state.Relies call) (unplaced : call.operation = none) (owner : Bool) {attached : Bool}
    (anchored : attached = true ∨ (state.resultOf operation).isSome = true)
    (owned : state.answerOf operation = state.resultOf operation) :
    state.Relies { call with stage := placed call operation owner attached } := by
  have reliance : ∀ other held, ({ call with stage := placed call operation owner attached } : FetchCall).reliance =
      some (other, held) → operation = other ∧ attached = held := by
    intro other held relies
    unfold FetchCall.reliance placed at relies
    cases kind : call.ownerKind <;> cases owner <;> simp_all
  have kind : ∀ other owner', placed call operation owner attached ≠ .subscribing other owner' := by
    intro other owner'
    unfold placed
    split
    next => simp
    next => cases owner <;> simp
  obtain ⟨-, -, -, -, received, outcomes⟩ := relies
  refine ⟨fun _ => unplaced, fun other owner' same => absurd same (kind other owner'), fun other held relies => ?_,
    fun other held relies => ?_, received, outcomes⟩
  · obtain ⟨rfl, rfl⟩ := reliance other held relies
    exact anchored
  · obtain ⟨rfl, rfl⟩ := reliance other held relies
    exact Or.inl owned

theorem Relied.advance (relied : state.Relied) (here : state.calls[index]? = some call)
    (alone : ∀ operation, call.stage = .failing operation → ∀ (other : Nat) (part : FetchCall), other ≠ index →
      state.calls[other]? = some part → part.reliance ≠ some (operation, true))
    (stepped : state.advance index call = some next) : next.Relied := by
  have relies := relied.relies index call here
  have unplaced := relies.unplaced
  have idle : ∀ stage : FetchStage, call.operation = none → (∀ operation owner, stage ≠ .subscribing operation owner) →
      ({ call with stage := stage } : FetchCall).reliance = none → (state.put index { call with stage := stage }).Relied :=
    fun stage unplaced subscribing none => relied.go here (relies.idle unplaced subscribing none)
  have later : ∀ stage : FetchStage, call.stage.late = true → stage.late = true →
      (∀ operation owner, stage ≠ .subscribing operation owner) → ∀ joined subscribed,
        (state.put index { call with stage := stage, joined := joined, subscribed := subscribed }).Relied :=
    fun stage late later subscribing joined subscribed =>
      relied.put here (relies.later late later subscribing rfl rfl rfl rfl rfl rfl) fun unclaimed => ⟨unclaimed, fun _ mine => mine⟩
  unfold FetchState.advance at stepped
  dsimp only at stepped
  cases stage : call.stage with
  | entered =>
    have none := unplaced (by simp [stage, FetchStage.late])
    simp only [stage] at stepped
    split at stepped
    next =>
      cases stepped
      exact (idle .returned none (by simp) (by simp [FetchCall.reliance, none])).complete (by simp)
    next =>
      cases stepped
      split_ifs
      next => exact idle .returned none (by simp) (by simp [FetchCall.reliance, none])
      next => exact idle .looking none (by simp) (by simp [FetchCall.reliance, none])
  | looking =>
    have none := unplaced (by simp [stage, FetchStage.late])
    simp only [stage, Option.map_eq_some_iff] at stepped
    obtain ⟨key, -, rfl⟩ := stepped
    split
    next => exact idle _ none (by simp) (by simp [FetchCall.reliance, none])
    next => exact (idle (.attaching _ true) none (by simp) (by simp [FetchCall.reliance, none])).register _ _
  | attaching operation owner =>
    have none := unplaced (by simp [stage, FetchStage.late])
    simp only [stage, Option.map_eq_some_iff] at stepped
    obtain ⟨found, there, rfl⟩ := stepped
    have shaped := relied.shaped found (List.mem_of_getElem? there)
    split
    next attached =>
      have unended : found.done = Option.none := by
        unfold CacheFetchOperation.attachResult at attached
        split at attached
        next => split_ifs at attached
        next => assumption
      refine (relied.go here (relies.attaching none owner (Or.inl rfl) ?_)).attach
      simpa [answerOf, resultOf, there] using shaped.answered_of_none unended
    next completed =>
      obtain ⟨result, ended, good⟩ : ∃ result, found.done = some result ∧ result.good = true := by
        unfold CacheFetchOperation.attachResult at completed
        split at completed
        next result ended =>
          split_ifs at completed with good
          exact ⟨result, ended, good⟩
        next => split_ifs at completed
      refine relied.go here (relies.attaching none owner (Or.inr ?_) ?_)
      · simp [resultOf, there, ended]
      · simpa [answerOf, resultOf, there] using shaped.answered_of_good ended good
    all_goals exact idle _ none (by simp) (by simp [FetchCall.reliance, none])
  | erasing operation =>
    have none := unplaced (by simp [stage, FetchStage.late])
    simp only [stage] at stepped
    cases stepped
    exact (idle .looking none (by simp) (by simp [FetchCall.reliance, none])).erase
  | joining operation owner attached =>
    have none := unplaced (by simp [stage, FetchStage.late])
    simp only [stage] at stepped
    split_ifs at stepped with gone
    next =>
      cases stepped
      exact idle _ none (by simp) (by simp [FetchCall.reliance, none])
    next =>
      cases stepped
      have unclaimed : call.completionClaimed = false := by simp_all
      have before : call.reliance = some (operation, attached) := by simp [FetchCall.reliance, stage, unclaimed]
      obtain ⟨-, -, anchored, owned, received, outcomes⟩ := relies
      refine relied.put here ⟨by simp [FetchStage.late], ?_, ?_, ?_, received, outcomes⟩ fun _ => ⟨unclaimed, fun _ mine => by simp [none] at mine⟩
      · rintro other owner' same -
        cases same
        rfl
      · intro other held after
        simp only [FetchCall.reliance, unclaimed, Option.map_some, Bool.false_eq_true, if_false, Option.some.injEq,
          Prod.mk.injEq] at after
        obtain ⟨rfl, rfl⟩ := after
        exact anchored operation attached before
      · intro other held after
        simp only [FetchCall.reliance, unclaimed, Option.map_some, Bool.false_eq_true, if_false, Option.some.injEq,
          Prod.mk.injEq] at after
        obtain ⟨rfl, rfl⟩ := after
        refine Or.inl ((owned operation attached before).resolve_right ?_)
        rintro ⟨-, other, waiting⟩
        rw [stage] at waiting
        cases waiting
  | dropping operation owner attached =>
    have none := unplaced (by simp [stage, FetchStage.late])
    simp only [stage, Option.some.injEq] at stepped
    subst stepped
    have moved : (state.put index { call with stage := if owner then .failing operation else .returned }).Relied := by
      cases owner <;> exact idle _ none (by simp) (by simp [FetchCall.reliance, none])
    cases attached with
    | true => exact moved.release
    | false => exact moved
  | failing operation =>
    have none := unplaced (by simp [stage, FetchStage.late])
    have unrelied : ({ call with stage := .cleaning operation false } : FetchCall).reliance = Option.none := by
      simp [FetchCall.reliance, none]
    simp only [stage] at stepped
    cases stepped
    refine (idle (.cleaning operation false) none (by simp) unrelied).finish rfl fun other part present relies => ?_
    rw [lookup_put here] at present
    split_ifs at present with same
    next =>
      obtain rfl := Option.some.inj present
      simp [unrelied] at relies
    next => exact absurd relies (alone operation stage other part same present)
  | subscribing operation owner =>
    have late : call.stage.late = true := by simp [stage, FetchStage.late]
    have mine := relies.subscribing operation owner stage
    simp only [stage, Option.map_eq_some_iff] at stepped
    obtain ⟨found, there, rfl⟩ := stepped
    split
    next => exact later (.starting operation owner) late rfl (by simp) _ _
    next =>
      refine (later (.setting operation owner) late rfl (by simp) (some operation) call.subscribed).update
        (fun _ _ _ => CacheFetchOperation.extends_of_same (by simp) (by simp)) ?_ fun _ _ own => Or.inl (by simpa using own)
      intro found _ other member
      refine (CacheFetchOperation.subscribe_listed other member).imp_right ?_
      rintro rfl part present unclaimed
      rw [lookup_put here, if_pos rfl] at present
      obtain rfl := Option.some.inj present
      exact mine unclaimed
    next result published =>
      have ended : found.done = some result := by
        unfold CacheFetchOperation.subscription at published
        split_ifs at published
        split at published
        next ended =>
          cases published
          exact ended
        next => cases published
      refine (later (.invoking operation owner) late rfl (by simp) _ _).complete fun other told same => ?_
      cases same
      refine ⟨by simp [resultOf, FetchState.put, there, ended], fun part present unclaimed => ?_⟩
      rw [lookup_put here, if_pos rfl] at present
      obtain rfl := Option.some.inj present
      exact mine unclaimed
  | invoking operation owner =>
    simp only [stage] at stepped
    split_ifs at stepped
    cases stepped
    exact later (.starting operation owner) (by simp [stage, FetchStage.late]) rfl (by simp) _ _
  | setting operation owner =>
    have late : call.stage.late = true := by simp [stage, FetchStage.late]
    simp only [stage] at stepped
    split_ifs at stepped
    next =>
      cases stepped
      exact later (.unsubscribing operation owner) late rfl (by simp) _ _
    next =>
      cases stepped
      exact later (.starting operation owner) late rfl (by simp) _ _
  | unsubscribing operation owner =>
    simp only [stage] at stepped
    cases stepped
    exact (later (.starting operation owner) (by simp [stage, FetchStage.late]) rfl (by simp) call.joined call.subscribed).unsubscribe
  | starting operation owner =>
    have moved : (state.put index { call with stage := .returned }).Relied :=
      later .returned (by simp [stage, FetchStage.late]) rfl (by simp) call.joined call.subscribed
    simp only [stage] at stepped
    cases stepped
    split_ifs
    next => exact moved.plain (fun _ => rfl) (fun _ => rfl) fun _ _ member => member
    next => exact moved
  | waiting operation owner attached =>
    have none := unplaced (by simp [stage, FetchStage.late])
    have before : call.reliance = some (operation, attached) := by simp [FetchCall.reliance, stage]
    simp only [stage, Option.map_eq_some_iff] at stepped
    obtain ⟨result, ended, rfl⟩ := stepped
    obtain ⟨-, -, -, owned, received, outcomes⟩ := relies
    have unrelied : ∀ other held, ({ call with
        stage := if owner then .cleaning operation attached else .releasing operation attached
        received := some (operation, owner, result) } : FetchCall).reliance ≠ some (other, held) := by
      cases owner <;> simp [FetchCall.reliance, none]
    refine relied.put here ⟨fun _ => none, ?_, fun other held relies => absurd relies (unrelied other held),
      fun other held relies => absurd relies (unrelied other held), ?_, outcomes⟩ fun unclaimed => ⟨unclaimed, fun _ mine => mine⟩
    · cases owner <;> simp
    · intro other owner' told same
      cases same
      rcases owned operation attached before with own | ⟨cancelled, held, waiting⟩
      · exact Or.inr (own.trans ended)
      · rw [stage] at waiting
        cases waiting
        exact Or.inl ⟨rfl, cancelled⟩
  | cleaning operation attached =>
    have none := unplaced (by simp [stage, FetchStage.late])
    simp only [stage] at stepped
    cases stepped
    exact (idle (.releasing operation attached) none (by simp) (by simp [FetchCall.reliance, none])).erase
  | releasing operation attached =>
    have none := unplaced (by simp [stage, FetchStage.late])
    have moved := idle .returned none (by simp) (by simp [FetchCall.reliance, none])
    simp only [stage, Option.some.injEq] at stepped
    subst stepped
    split_ifs
    next => exact moved.release
    next => exact moved
  | transferring | returned => simp [stage] at stepped

theorem Relied.move (relied : state.Relied)
    (publishes : ∀ operation result, moved.outcome = .published operation result → state.Publishes moved operation result) :
    (state.putCompletion index moved).Relied := by
  constructor
  case shaped => exact relied.shaped
  case relies =>
    intro other part present
    have kept := relied.relies other part present
    exact ⟨kept.1, kept.2, kept.3, kept.4, kept.5, kept.6⟩
  case listed => exact relied.listed
  case publishes =>
    intro other member operation result outcome
    have kept : state.Publishes other operation result := by
      rcases List.mem_or_eq_of_mem_set member with old | rfl
      · exact relied.publishes other old operation result outcome
      · exact publishes operation result outcome
    exact ⟨kept.1, kept.2, kept.3⟩

theorem Relies.of_claimed (relies : state.Relies call) (claimed : changed.completionClaimed = true)
    (stage : changed.stage = call.stage) (cancelled : changed.cancelled = call.cancelled)
    (operation : ∀ operation, changed.operation = some operation → call.operation = some operation)
    (received : changed.received = call.received)
    (outcomes : ∀ operation result, .published operation result ∈ changed.outcomes → state.answerOf operation = some result) :
    state.Relies changed := by
  have before : ∀ place attached, changed.reliance = some (place, attached) → call.reliance = some (place, attached) := by
    intro place attached relies
    unfold FetchCall.reliance at relies ⊢
    rw [stage] at relies
    split at relies <;> simp_all
  refine ⟨fun early => ?_, fun _ _ _ unclaimed => ?_, fun place attached after => ?_, fun place attached after => ?_, ?_, outcomes⟩
  · refine Option.eq_none_iff_forall_ne_some.mpr fun place mine => ?_
    rw [stage] at early
    simp [relies.unplaced early] at operation
    exact operation place mine
  · rw [claimed] at unclaimed
    cases unclaimed
  · exact relies.anchored place attached (before place attached after)
  · refine (relies.owned place attached (before place attached after)).imp_right fun ⟨was, held, waiting⟩ => ?_
    exact ⟨cancelled.trans was, held, stage.trans waiting⟩
  · rw [received, cancelled]
    exact relies.received

theorem Relied.proceed (relied : state.Relied) (linked : state.Linked) (listed : state.completions[index]? = some completion)
    (here : state.calls[completion.call]? = some call) (stepped : state.proceed index completion call = some next) :
    next.Relied := by
  have relies := relied.relies completion.call call here
  have claimed := linked.claimed_of_winning listed here
  have publishes := relied.publishes completion (List.mem_of_getElem? listed)
  have onward : ∀ stage : CompletionStage, completion.stage ≠ .entered → completion.stage ≠ .returned → stage ≠ .entered →
      (state.putCompletion index { completion with stage := stage }).Relied :=
    fun stage entered returned going => relied.move fun operation result outcome =>
      have kept := publishes operation result outcome
      ⟨kept.ended, fun entering => absurd entering going, fun _ _ => kept.answered entered returned⟩
  unfold FetchState.proceed at stepped
  dsimp only at stepped
  cases stage : completion.stage with
  | entered =>
    simp only [stage] at stepped
    split_ifs at stepped with taken
    next =>
      cases stepped
      exact relied.move fun operation result outcome =>
        ⟨(publishes operation result outcome).ended, (by simp), fun _ returned => absurd rfl returned⟩
    next =>
      cases stepped
      have unclaimed : call.completionClaimed = false := by simpa using taken
      have moved : (state.putCompletion index { completion with stage := .claimed }).Relied := by
        refine relied.move fun operation result outcome => ?_
        obtain ⟨ended, entered, -⟩ := publishes operation result outcome
        refine ⟨ended, (by simp), fun _ _ => ?_⟩
        have mine := entered stage call here unclaimed
        have late : call.stage.late = true := by
          by_contra early
          simp [relies.unplaced (by simpa using early)] at mine
        have relying := FetchCall.reliance_of_late late unclaimed mine
        exact ((relies.owned operation _ relying).resolve_right (FetchCall.not_cutOff_of_late late)).trans ended
      refine moved.put here ?_ (by simp)
      exact (moved.relies completion.call call here).of_claimed rfl rfl rfl (fun _ mine => mine) rfl relies.outcomes
  | claimed =>
    simp only [stage] at stepped
    cases stepped
    refine relied.move fun operation result outcome => ?_
    split_ifs at outcome
    have kept := publishes operation result outcome
    exact ⟨kept.ended, (by simp), fun _ _ => kept.answered (by simp [stage]) (by simp [stage])⟩
  | detaching =>
    have claimed := claimed (by simp [stage]) (by simp [stage])
    have detached : ∀ going : CompletionStage, going ≠ .entered →
        ((state.putCompletion index { completion with stage := going }).put completion.call { call with
          subscriptionDetached := true, operation := none, subscribed := false, operationAttached := false }).Relied := by
      intro going on
      have moved := onward going (by simp [stage]) (by simp [stage]) on
      refine moved.put here ?_ fun unclaimed => ?_
      · exact (moved.relies completion.call call here).of_claimed claimed rfl rfl (by simp) rfl relies.outcomes
      · simp [claimed] at unclaimed
    simp only [stage] at stepped
    by_cases gone : call.subscriptionDetached = true
    · rw [if_pos gone] at stepped
      cases stepped
      exact onward _ (by simp [stage]) (by simp [stage]) (by simp)
    · rw [if_neg gone] at stepped
      split at stepped
      next =>
        cases stepped
        exact detached .invoking (by simp)
      next =>
        cases stepped
        refine detached _ ?_
        split_ifs <;> simp
  | unsubscribing operation attached =>
    simp only [stage] at stepped
    cases stepped
    refine (onward (if attached then .releasing operation else .invoking) (by simp [stage]) (by simp [stage]) ?_).unsubscribe
    cases attached <;> simp
  | releasing operation =>
    simp only [stage] at stepped
    cases stepped
    exact (onward .invoking (by simp [stage]) (by simp [stage]) (by simp)).release
  | invoking =>
    have claimed := claimed (by simp [stage]) (by simp [stage])
    simp only [stage] at stepped
    cases stepped
    have moved := onward .returned (by simp [stage]) (by simp [stage]) (by simp)
    refine moved.put here ?_ fun unclaimed => ?_
    · refine (moved.relies completion.call call here).of_claimed claimed rfl rfl (fun _ mine => mine) rfl ?_
      intro operation result member
      rcases List.mem_append.mp member with old | new
      · exact relies.outcomes operation result old
      · exact (publishes operation result (List.mem_singleton.mp new).symm).answered (by simp [stage]) (by simp [stage])
    · exact ⟨unclaimed, fun _ mine => mine⟩
  | returned => simp [stage] at stepped

theorem Relied.transfer (relied : state.Relied) (here : state.calls[index]? = some call) {attached : Bool}
    (stage : call.stage = .transferring operation attached) :
    (state.put index { call with stage := .waiting operation true attached }).Relied := by
  have same : ({ call with stage := .waiting operation true attached } : FetchCall).reliance = call.reliance := by
    simp [FetchCall.reliance, stage]
  obtain ⟨unplaced, -, anchored, owned, received, outcomes⟩ := relied.relies index call here
  refine relied.go here ⟨fun _ => unplaced (by simp [stage, FetchStage.late]), (by simp), by rwa [same], fun place held relies => ?_,
    received, outcomes⟩
  refine Or.inl ((owned place held (same ▸ relies)).resolve_right ?_)
  rintro ⟨-, other, waiting⟩
  rw [stage] at waiting
  cases waiting

end FetchState

end Reliance

end SubConverter.Handler
