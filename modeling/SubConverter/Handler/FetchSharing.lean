import SubConverter.Handler.FetchReliance

set_option autoImplicit false

namespace SubConverter.Handler

section Sharing

variable {state next : FetchState} {call call' : FetchCall} {index index' operation operation' : Nat} {found : CacheFetchOperation}
  {result result' : Published}

namespace FetchState

def EndsAlone (state : FetchState) : FetchAction → Prop
  | .advance index | .cut index _ => ∀ call ∈ state.calls[index]?, ∀ operation ∈ call.stage.ends,
    ∀ other ∈ state.calls.eraseIdx index, other.reliance ≠ some (operation, true)
  | _ => True

instance (state : FetchState) : (action : FetchAction) → Decidable (state.EndsAlone action)
  | .advance index | .cut index _ => inferInstanceAs (Decidable (∀ call ∈ state.calls[index]?, ∀ operation ∈ call.stage.ends,
    ∀ other ∈ state.calls.eraseIdx index, other.reliance ≠ some (operation, true)))
  | .fetch _ _ | .fetchDirect | .cancel _ | .proceed _ | .answer _ _ | .interrupt _ _ | .deliver _ _ | .retire _
  | .transfer _ _ => isTrue trivial

theorem not_relies_of_abandoned (balanced : state.Balanced) (there : state.operations[operation]? = some found)
    (abandoned : found.abandoned = true) (here : state.calls[index]? = some call) :
    call.reliance ≠ some (operation, true) := by
  intro relies
  have counted := balanced.consumers operation
  have inside := @le_total _ _ _ _ (FetchCall.holds operation) here
  have holds := FetchCall.holds_of_reliance relies
  have none := balanced.left found (List.mem_of_getElem? there) abandoned
  simp only [consumersIn, there, Option.map_some, Option.getD_some, FetchState.held] at counted
  omega

theorem Relied.step {action : FetchAction} (relied : state.Relied) (balanced : state.Balanced) (linked : state.Linked)
    (alone : state.EndsAlone action) (stepped : state.step action = some next) : next.Relied := by
  have appended : ∀ added : FetchCall, added.stage = .entered → added.operation = none → added.received = none →
      added.outcomes = [] → ({ state with calls := state.calls ++ [added] } : FetchState).Relied := by
    intro added entered unplaced received outcomes
    have fits : state.Relies added := by
      refine ⟨fun _ => unplaced, fun _ _ stage => ?_, fun _ _ relies => ?_, fun _ _ relies => ?_, fun _ _ _ got => ?_,
        fun _ _ got => ?_⟩
      · simp [entered] at stage
      · simp [FetchCall.reliance, entered, unplaced] at relies
      · simp [FetchCall.reliance, entered, unplaced] at relies
      · simp [received] at got
      · simp [outcomes] at got
    have mine : ∀ (other operation : Nat), (∀ part, state.calls[other]? = some part → part.completionClaimed = false →
        part.operation = some operation) → (∃ part, state.calls[other]? = some part) → ∀ part,
          (state.calls ++ [added])[other]? = some part → part.completionClaimed = false → part.operation = some operation := by
      rintro other operation before ⟨old, there⟩ part present
      rw [List.getElem?_append_left (List.getElem?_eq_some_iff.mp there).1] at present
      exact before part present
    constructor
    case shaped => exact relied.shaped
    case relies =>
      refine forall_lookup_concat ⟨fits.1, fits.2, fits.3, fits.4, fits.5, fits.6⟩ fun other part present => ?_
      have kept := relied.relies other part present
      exact ⟨kept.1, kept.2, kept.3, kept.4, kept.5, kept.6⟩
    case listed =>
      intro operation found there other member
      obtain ⟨part, present, -⟩ := linked.listed operation found there other member
      exact mine other operation (relied.listed operation found there other member) ⟨part, present⟩
    case publishes =>
      intro completion member operation result outcome
      have kept := relied.publishes completion member operation result outcome
      obtain ⟨part, present, -⟩ := linked.origins completion member
      exact ⟨kept.ended, fun entered => mine completion.call operation (kept.entered entered) ⟨part, present⟩, kept.answered⟩
  cases action with
  | fetch | fetchDirect =>
    cases stepped
    exact appended _ rfl rfl rfl rfl
  | advance index =>
    obtain ⟨call, here, advanced⟩ := Option.bind_eq_some_iff.mp stepped
    refine relied.advance here (fun operation stage other part apart present => ?_) advanced
    exact alone call here operation (by simp [stage, FetchStage.ends]) part
      (List.mem_eraseIdx_iff_getElem?.mpr ⟨other, apart, present⟩)
  | cancel index =>
    obtain ⟨call, here, cancelled⟩ := Option.bind_eq_some_iff.mp stepped
    have flagged : (state.put index { call with cancelled := true }).Relied := by
      obtain ⟨unplaced, subscribing, anchored, owned, received, outcomes⟩ := relied.relies index call here
      refine relied.put here ⟨unplaced, subscribing, anchored, fun operation attached relies => ?_,
        fun operation owner result got => ?_, outcomes⟩ fun unclaimed => ⟨unclaimed, fun _ mine => mine⟩
      · exact (owned operation attached relies).imp_right fun cut => ⟨rfl, cut.2⟩
      · exact (received operation owner result got).imp_left fun own => ⟨own.1, rfl⟩
    split_ifs at cancelled
    · cases cancelled
      exact flagged.complete (by simp)
    · cases cancelled
      exact flagged
  | proceed index =>
    obtain ⟨completion, listed, rest⟩ := Option.bind_eq_some_iff.mp stepped
    obtain ⟨call, here, proceeded⟩ := Option.bind_eq_some_iff.mp rest
    exact relied.proceed linked listed here proceeded
  | answer operation result =>
    obtain ⟨found, -, answered⟩ := Option.bind_eq_some_iff.mp stepped
    split_ifs at answered
    cases answered
    exact relied.answer result
  | interrupt operation payload =>
    obtain ⟨found, there, interrupted⟩ := Option.bind_eq_some_iff.mp stepped
    split_ifs at interrupted with given
    cases interrupted
    simp only [Bool.and_eq_true, decide_eq_true_eq] at given
    refine relied.finish (by simp [Published.good, given.2]) fun index call here relies => ?_
    exact absurd relies (not_relies_of_abandoned balanced there given.1.1.2 here)
  | deliver operation pick =>
    obtain ⟨found, there, rest⟩ := Option.bind_eq_some_iff.mp stepped
    obtain ⟨result, done, picked⟩ := Option.bind_eq_some_iff.mp rest
    obtain ⟨chosen, at?, rfl⟩ := Option.map_eq_some_iff.mp picked
    have mine := relied.listed operation found there chosen (List.mem_append_right _ (List.mem_of_getElem? at?))
    have taken : (state.update operation fun found =>
        { found with delivering := found.delivering.eraseIdx pick }).Relied := by
      refine relied.plain (fun _ => rfl) (fun _ => rfl) fun found index member => ?_
      rcases List.mem_append.mp member with kept | kept
      · exact List.mem_append_left _ kept
      · exact List.mem_append_right _ (List.mem_of_mem_eraseIdx kept)
    refine taken.complete fun other told same => ?_
    cases same
    exact ⟨by simp [resultOf_update, there, done], mine⟩
  | retire operation =>
    obtain ⟨found, -, retired⟩ := Option.bind_eq_some_iff.mp stepped
    split_ifs at retired
    cases retired
    exact relied.erase
  | transfer index result =>
    obtain ⟨call, here, ended⟩ := Option.bind_eq_some_iff.mp stepped
    split at ended
    next operation attached stage =>
      cases ended
      exact (relied.transfer here stage).answer result
    next => cases ended
  | cut index payload =>
    obtain ⟨call, here, ended⟩ := Option.bind_eq_some_iff.mp stepped
    split at ended
    next operation attached stage =>
      split_ifs at ended with given
      cases ended
      simp only [Bool.and_eq_true, Bool.or_eq_true, decide_eq_true_eq] at given
      have bad : Published.good (some payload) = false := by
        rcases given.2 with failure | failure <;> simp [Published.good, failure]
      refine (relied.transfer here stage).finish bad fun other part present relies => ?_
      rw [lookup_put here] at present
      split_ifs at present with same
      next =>
        obtain rfl := Option.some.inj present
        exact ⟨given.1, attached, rfl⟩
      next =>
        refine absurd relies (alone call here operation (by simp [stage, FetchStage.ends]) part ?_)
        exact List.mem_eraseIdx_iff_getElem?.mpr ⟨other, same, present⟩
    next => cases ended

structure Independent (state : FetchState) : Prop where
  balanced : state.Balanced
  linked : state.Linked
  relied : state.Relied

theorem Independent.step {action : FetchAction} (independent : state.Independent) (alone : state.EndsAlone action)
    (stepped : state.step action = some next) : next.Independent :=
  ⟨independent.balanced.step stepped, independent.linked.step stepped,
    independent.relied.step independent.balanced independent.linked alone stepped⟩

end FetchState

end Sharing

end SubConverter.Handler
