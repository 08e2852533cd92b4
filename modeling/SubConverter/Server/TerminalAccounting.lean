import SubConverter.Server.RequestContext

set_option autoImplicit false

namespace SubConverter.Server

section Outcomes

variable {terminal : RequestTerminalState} {failure : RequestFailureAttribution}

theorem encodeOutcome_ne_zero (ended : terminal ≠ .none) : encodeOutcome terminal failure ≠ 0 := by
  cases terminal <;> cases failure <;> first | contradiction | decide

theorem encodeOutcome_eq_iff :
    encodeOutcome terminal failure = encodeOutcome .completed .none ↔ terminal = .completed ∧ failure = .none := by
  cases terminal <;> cases failure <;> decide

namespace RequestLifecycleMetrics

def terminalSum (metrics : RequestLifecycleMetrics) : Nat :=
  total metrics.terminalCounts RequestTerminalState.counted

def failureSum (metrics : RequestLifecycleMetrics) : Nat :=
  total metrics.failureCounts RequestFailureAttribution.counted

end RequestLifecycleMetrics

theorem terminalSum_update {counts : RequestTerminalState → Nat} (counted : terminal ≠ .count) :
    total (Function.update counts terminal (counts terminal + 1)) RequestTerminalState.counted =
      total counts RequestTerminalState.counted + 1 := by
  cases terminal <;> first | contradiction | (simp [RequestTerminalState.counted, Function.update]; omega)

theorem failureSum_update {counts : RequestFailureAttribution → Nat} (counted : failure ≠ .count) :
    total (Function.update counts failure (counts failure + 1)) RequestFailureAttribution.counted =
      total counts RequestFailureAttribution.counted + 1 := by
  cases failure <;> first | contradiction | (simp [RequestFailureAttribution.counted, Function.update]; omega)

end Outcomes

section Ledger

namespace RequestContext

def isFinished (context : RequestContext) : Bool := context.terminalOutcome.latest ≠ 0

def isSuccessful (context : RequestContext) : Bool := context.terminalOutcome.latest = encodeOutcome .completed .none

def isRecorded (context : RequestContext) : Bool := context.postAdmissionCapacityRecorded.latest

def Owes (context : RequestContext) : Prop :=
  context.kind = .client ∧ context.workAdmitted.latest = true ∧ context.capacityFailureSeen.latest = true ∧
    context.isRecorded = false

structure Flags (context : RequestContext) : Prop where
  admitted : context.workAdmitted.Flag
  seen : context.capacityFailureSeen.Flag

end RequestContext

def RequestMethod.finishes : RequestMethod → Bool
  | .tryFinish _ _ | .finalizeResponse _ _ => true
  | _ => false

namespace RequestProgress

@[simp] def terminalDue : RequestProgress → Nat
  | .countTerminal _ _ => 1
  | _ => 0

@[simp] def failureDue : RequestProgress → Nat
  | .countTerminal _ _ | .countFailure _ _ => 1
  | _ => 0

@[simp] def responseDue : RequestProgress → Nat
  | .countTerminal terminal failure | .countFailure terminal failure =>
    (decide (terminal = .completed ∧ failure = .none)).toNat
  | .countResponse => 1
  | _ => 0

@[simp] def recordDue : RequestProgress → Nat
  | .countRecord _ => 1
  | _ => 0

@[simp] def finished (method : RequestMethod) : RequestProgress → Nat
  | .countTerminal _ _ | .countFailure _ _ | .countResponse | .readRole | .countOwner | .returned true =>
    method.finishes.toNat
  | _ => 0

@[simp] def Records : RequestProgress → Prop
  | .countAdmitted | .readAdmitted _ | .readSeen _ | .claimRecord _ => True
  | _ => False

@[simp] def Idle (method : RequestMethod) : RequestProgress → Prop
  | .countTerminal _ _ | .countFailure _ _ | .countResponse | .readRole | .countOwner | .countRecord _ => False
  | .returned true => method.finishes = false
  | _ => True

@[simp] def Fits (method : RequestMethod) : RequestProgress → Prop
  | .started | .returned _ => True
  | .finish terminal failure | .countTerminal terminal failure | .countFailure terminal failure =>
    method.finishes = true ∧ terminal ≠ .none ∧ terminal ≠ .count ∧ failure ≠ .count
  | .countResponse | .readRole | .countOwner | .readCancellation _ | .cancelAndFinish _ _ _ => method.finishes = true
  | .markSeen => method = .suggestFailure .capacity
  | .countAdmitted => method = .markWorkAdmitted
  | _ => method.finishes = false

@[simp] def Knows (context : RequestContext) : RequestProgress → Prop
  | .readSeen _ => context.kind = .client ∧ context.workAdmitted.latest = true
  | .claimRecord _ =>
    context.kind = .client ∧ context.workAdmitted.latest = true ∧ context.capacityFailureSeen.latest = true
  | _ => True

-- The step reads a flag and finds it lowered.
@[simp] def Overlooks (context : RequestContext) (moment : RequestMoment) : RequestProgress → Prop
  | .readAdmitted _ => (moment.load .workAdmitted context.workAdmitted).1 = false
  | .readSeen _ => (moment.load .capacityFailureSeen context.capacityFailureSeen).1 = false
  | _ => False

end RequestProgress

structure Tracked (method : RequestMethod) (context changed : RequestContext) (progress later : RequestProgress) :
    Prop where
  moved : later ≠ .started
  marked : later = .markSeen → progress = .started
  marks : method = .suggestFailure .capacity → progress = .started → later = .markSeen
  knows : later.Knows changed
  recorded : progress.Knows context → changed.isRecorded = true →
    context.isRecorded = true ∨ context.kind = .client ∧ context.workAdmitted.latest = true ∧
      context.capacityFailureSeen.latest = true
  flags : changed.Flags

structure Balanced (method : RequestMethod) (context changed : RequestContext)
    (metrics counted : RequestLifecycleMetrics) (progress later : RequestProgress) : Prop where
  fits : later.Fits method
  terminal : counted.terminalSum + later.terminalDue + context.isFinished.toNat =
    metrics.terminalSum + progress.terminalDue + changed.isFinished.toNat
  failure : counted.failureSum + later.failureDue + context.isFinished.toNat =
    metrics.failureSum + progress.failureDue + changed.isFinished.toNat
  response : counted.successfulResponses + later.responseDue + context.isSuccessful.toNat =
    metrics.successfulResponses + progress.responseDue + changed.isSuccessful.toNat
  record : counted.serverCapacityFailureAfterAdmission + later.recordDue + context.isRecorded.toNat =
    metrics.serverCapacityFailureAfterAdmission + progress.recordDue + changed.isRecorded.toNat
  finished : later.finished method + context.isFinished.toNat = progress.finished method + changed.isFinished.toNat
  lasting : context.terminalOutcome.latest ≠ 0 → changed.terminalOutcome.latest = context.terminalOutcome.latest
  kind : changed.kind = context.kind
  admitted : changed.workAdmitted.latest = (context.workAdmitted.latest || decide (method = .markWorkAdmitted ∧
    progress = .started ∧ context.kind = .client))
  seen : changed.capacityFailureSeen.latest = (context.capacityFailureSeen.latest || decide (progress = .markSeen))
  noted : context.isRecorded = true → changed.isRecorded = true

end Ledger

section Steps

variable {method : RequestMethod} {context changed : RequestContext} {metrics counted : RequestLifecycleMetrics}
  {progress later : RequestProgress} {moment : RequestMoment} {view : View RequestVariable}
  {terminal : RequestTerminalState} {failure : RequestFailureAttribution}

theorem fits_tryFinish (finishes : method.finishes = true) : (tryFinish terminal failure).Fits method := by
  unfold tryFinish
  split
  · trivial
  · simp_all [RequestProgress.Fits]

theorem idle_tryFinish : (tryFinish terminal failure).Idle method := by
  unfold tryFinish
  split <;> simp

theorem idle_returned {answer : Bool} (plain : method.finishes = false) : (RequestProgress.returned answer).Idle method := by
  cases answer <;> simp [plain]

theorem RequestProgress.Idle.dues (idle : progress.Idle method) :
    progress.terminalDue = 0 ∧ progress.failureDue = 0 ∧ progress.responseDue = 0 ∧ progress.recordDue = 0 ∧
      progress.finished method = 0 := by
  cases progress with
  | returned answer => cases answer <;> simp_all
  | _ => simp_all

theorem Balanced.idle (fits : later.Fits method) (before : progress.Idle method) (after : later.Idle method)
    (outcome : changed.terminalOutcome = context.terminalOutcome)
    (recorded : changed.postAdmissionCapacityRecorded = context.postAdmissionCapacityRecorded)
    (kind : changed.kind = context.kind)
    (admitted : changed.workAdmitted.latest = (context.workAdmitted.latest || decide (method = .markWorkAdmitted ∧
      progress = .started ∧ context.kind = .client)))
    (seen : changed.capacityFailureSeen.latest =
      (context.capacityFailureSeen.latest || decide (progress = .markSeen))) :
    Balanced method context changed metrics metrics progress later := by
  obtain ⟨terminal, failure, response, record, finished⟩ := before.dues
  obtain ⟨terminal', failure', response', record', finished'⟩ := after.dues
  have same : changed.isFinished = context.isFinished := by simp only [RequestContext.isFinished, outcome]
  have success : changed.isSuccessful = context.isSuccessful := by simp only [RequestContext.isSuccessful, outcome]
  have mark : changed.isRecorded = context.isRecorded := by simp only [RequestContext.isRecorded, recorded]
  constructor
  case fits => exact fits
  case terminal => rw [terminal, terminal', same]
  case failure => rw [failure, failure', same]
  case response => rw [response, response', success]
  case record => rw [record, record', mark]
  case finished => rw [finished, finished', same]
  case lasting => exact fun _ => by rw [outcome]
  case kind => exact kind
  case admitted => exact admitted
  case seen => exact seen
  case noted => rw [mark]; exact id

theorem Balanced.look (fits : later.Fits method) (before : progress.Idle method) (after : later.Idle method)
    (admission : method = .markWorkAdmitted → progress ≠ .started) (marking : progress ≠ .markSeen) :
    Balanced method context context metrics metrics progress later := by
  apply Balanced.idle fits before after rfl rfl rfl
  case admitted => simp_all
  case seen => simp [marking]

theorem start_balanced :
    Balanced method context (context.start moment method).1 metrics metrics .started
      (context.start moment method).2.2 := by
  cases method with
  | tryFinish terminal failure => exact .look (fits_tryFinish rfl) trivial idle_tryFinish (by simp) (by simp)
  | finalizeResponse statusCode responseSent => apply Balanced.look <;> simp [RequestContext.start, RequestMethod.finishes]
  | markWorkAdmitted =>
    simp only [RequestContext.start]
    split
    next other => apply Balanced.idle <;> simp [other]
    next client =>
      by_cases admitted : context.workAdmitted.latest = true
      · apply Balanced.idle <;> simp [admitted]
      · apply Balanced.idle <;> simp_all
  | suggestFailure value =>
    simp only [RequestContext.start]
    split
    next => apply Balanced.look <;> simp [RequestMethod.finishes]
    next =>
      by_cases capacity : value = .capacity
      · apply Balanced.idle <;> simp [capacity]
      · apply Balanced.idle <;> simp [capacity, RequestMethod.finishes]
  | requestCancellation reason =>
    simp only [RequestContext.start]
    split
    next => apply Balanced.look <;> simp
    next =>
      split
      next =>
        cases (moment.load .drainOnShutdown context.drainOnShutdown).1
        · apply Balanced.look <;> simp [RequestMethod.finishes]
        · apply Balanced.look <;> simp
      next => apply Balanced.look <;> simp [RequestMethod.finishes]
  | setSingleflightRole role => apply Balanced.idle <;> simp [RequestContext.start, RequestMethod.finishes]
  | setSendStage => apply Balanced.idle <;> simp [RequestContext.start, RequestMethod.finishes]

theorem finish_balanced (fits : (RequestProgress.finish terminal failure).Fits method)
    (advanced : context.advance moment metrics method (.finish terminal failure) = some (changed, view, counted, later)) :
    Balanced method context changed metrics counted (.finish terminal failure) later := by
  have ended : encodeOutcome terminal failure ≠ 0 := encodeOutcome_ne_zero fits.2.1
  have finishes : method.finishes = true := fits.1
  have fresh : 0 ≠ encodeOutcome .completed .none := by decide
  cases advanced
  by_cases unfinished : context.terminalOutcome.latest = 0
  · simp only [Atomic.compareExchange_done, unfinished, decide_true, if_true]
    constructor
    case fits => exact fits
    case response => simp [RequestContext.isSuccessful, encodeOutcome_eq_iff, unfinished, fresh]
    all_goals simp [RequestContext.isFinished, RequestContext.isRecorded, unfinished, ended, finishes]
  · simp only [Atomic.compareExchange_done, unfinished, decide_false, Bool.false_eq_true, if_false]
    constructor <;>
      simp [RequestContext.isFinished, RequestContext.isSuccessful, RequestContext.isRecorded, unfinished]

theorem count_balanced (fits : progress.Fits method)
    (advanced : context.advance moment metrics method progress = some (changed, view, counted, later))
    (counts : ¬progress.Idle method) : Balanced method context changed metrics counted progress later := by
  cases progress with
  | countTerminal terminal failure =>
    cases advanced
    constructor
    case fits => exact fits
    case terminal => simp [RequestLifecycleMetrics.terminalSum, terminalSum_update fits.2.2.1]
    all_goals simp [RequestLifecycleMetrics.failureSum]
  | countFailure terminal failure =>
    have finishes : method.finishes = true := fits.1
    cases advanced
    by_cases success : terminal = .completed ∧ failure = .none
    · constructor
      case failure => simp [success, RequestLifecycleMetrics.failureSum, ← failureSum_update fits.2.2.2]
      all_goals simp [success, finishes, RequestLifecycleMetrics.terminalSum]
    · constructor
      case failure => simp [success, RequestLifecycleMetrics.failureSum, failureSum_update fits.2.2.2]
      all_goals simp [success, finishes, RequestLifecycleMetrics.terminalSum]
  | countResponse =>
    have finishes : method.finishes = true := fits
    cases advanced
    constructor <;> simp [finishes, RequestLifecycleMetrics.terminalSum, RequestLifecycleMetrics.failureSum]
  | readRole =>
    have finishes : method.finishes = true := fits
    cases advanced
    split <;> constructor <;> simp [finishes]
  | countOwner =>
    have finishes : method.finishes = true := fits
    cases advanced
    constructor <;> simp [finishes, RequestLifecycleMetrics.terminalSum, RequestLifecycleMetrics.failureSum]
  | countRecord answer =>
    have records : method.finishes = false := fits
    cases advanced
    constructor
    all_goals cases answer <;> simp [records, RequestLifecycleMetrics.terminalSum, RequestLifecycleMetrics.failureSum]
  | returned answer => simp [RequestContext.advance] at advanced
  | _ => simp at counts

theorem record_balanced (fits : progress.Fits method)
    (advanced : context.advance moment metrics method progress = some (changed, view, counted, later))
    (records : progress.Records) : Balanced method context changed metrics counted progress later := by
  cases progress with
  | countAdmitted =>
    cases advanced
    simp only [RequestProgress.Fits] at fits
    constructor <;>
      simp [fits, RequestMethod.finishes, RequestLifecycleMetrics.terminalSum, RequestLifecycleMetrics.failureSum]
  | readAdmitted answer =>
    have plain : method.finishes = false := fits
    simp only [RequestContext.advance] at advanced
    split at advanced
    next =>
      cases advanced
      exact .look trivial trivial (idle_returned plain) (by simp) (by simp)
    next =>
      cases advanced
      split
      next => apply Balanced.look <;> simp [plain]
      next => exact .look trivial trivial (idle_returned plain) (by simp) (by simp)
  | readSeen answer =>
    have plain : method.finishes = false := fits
    cases advanced
    split
    next => apply Balanced.look <;> simp [plain]
    next => exact .look trivial trivial (idle_returned plain) (by simp) (by simp)
  | claimRecord answer =>
    have plain : method.finishes = false := fits
    cases advanced
    by_cases recorded : context.postAdmissionCapacityRecorded.latest = true
    · simp only [Atomic.compareExchange_done, recorded, Bool.true_eq_false, decide_false, Bool.false_eq_true, if_false]
      constructor
      all_goals
        cases answer <;>
          simp [plain, recorded, RequestContext.isFinished, RequestContext.isSuccessful, RequestContext.isRecorded]
    · simp only [Atomic.compareExchange_done, recorded, decide_true, if_true]
      constructor
      all_goals simp [plain, recorded, RequestContext.isFinished, RequestContext.isSuccessful, RequestContext.isRecorded]
  | _ => simp at records

theorem Tracked.plain (moved : later ≠ .started) (unmarked : later ≠ .markSeen)
    (other : method = .suggestFailure .capacity → progress ≠ .started) (knows : later.Knows changed)
    (recorded : changed.postAdmissionCapacityRecorded = context.postAdmissionCapacityRecorded) (flags : changed.Flags) :
    Tracked method context changed progress later := by
  constructor
  case moved => exact moved
  case marked => exact fun marked => absurd marked unmarked
  case marks => exact fun marks started => absurd started (other marks)
  case knows => exact knows
  case recorded => exact fun _ after => .inl (by rwa [RequestContext.isRecorded, recorded] at after)
  case flags => exact flags

theorem tracked_tryFinish (other : method = .suggestFailure .capacity → progress ≠ .started)
    (recorded : changed.postAdmissionCapacityRecorded = context.postAdmissionCapacityRecorded) (flags : changed.Flags) :
    Tracked method context changed progress (tryFinish terminal failure) := by
  unfold tryFinish
  split
  · exact .plain (by simp) (by simp) other trivial recorded flags
  · exact .plain (by simp) (by simp) other trivial recorded flags

theorem start_tracked (flags : context.Flags) :
    Tracked method context (context.start moment method).1 .started (context.start moment method).2.2 := by
  have same : ∀ {final : RequestContext}, final.workAdmitted = context.workAdmitted →
      final.capacityFailureSeen = context.capacityFailureSeen → final.Flags := by
    intro final admitted seen
    exact ⟨admitted ▸ flags.admitted, seen ▸ flags.seen⟩
  cases method with
  | tryFinish terminal failure => exact tracked_tryFinish (by simp) rfl flags
  | finalizeResponse statusCode responseSent => apply Tracked.plain <;> simp [RequestContext.start, flags]
  | markWorkAdmitted =>
    simp only [RequestContext.start]
    split
    · apply Tracked.plain <;> simp [flags]
    · split <;> exact .plain (by simp) (by simp) (by simp) trivial rfl ⟨flags.admitted.compareExchange, flags.seen⟩
  | suggestFailure value =>
    simp only [RequestContext.start]
    by_cases capacity : value = .capacity
    · constructor
      case flags =>
        simp only [capacity, reduceCtorEq, or_self, if_false]
        exact same rfl rfl
      all_goals simp +contextual [capacity, RequestContext.isRecorded]
    · split
      · apply Tracked.plain <;> simp [capacity, flags]
      · exact .plain (by simp) (by simp) (by simp [capacity]) trivial rfl (same rfl rfl)
  | requestCancellation reason =>
    simp only [RequestContext.start]
    split
    · apply Tracked.plain <;> simp [flags]
    · split
      · cases (moment.load .drainOnShutdown context.drainOnShutdown).1 <;> (apply Tracked.plain <;> simp [flags])
      · apply Tracked.plain <;> simp [flags]
  | setSingleflightRole role =>
    simp only [RequestContext.start]
    exact .plain (by simp) (by simp) (by simp) trivial rfl (same rfl rfl)
  | setSendStage =>
    simp only [RequestContext.start]
    exact .plain (by simp) (by simp) (by simp) trivial rfl (same rfl rfl)

theorem advance_tracked (flags : context.Flags) (knows : progress.Knows context)
    (advanced : context.advance moment metrics method progress = some (changed, view, counted, later)) :
    Tracked method context changed progress later := by
  cases progress with
  | started =>
    cases advanced
    exact start_tracked flags
  | finish terminal failure =>
    cases advanced
    split <;> exact .plain (by simp) (by simp) (by simp) trivial rfl ⟨flags.admitted, flags.seen⟩
  | readCancellation failure =>
    cases method with
    | finalizeResponse statusCode responseSent =>
      simp only [RequestContext.advance] at advanced
      split at advanced
      · cases advanced
        apply Tracked.plain <;> simp [flags]
      · cases advanced
        exact tracked_tryFinish (by simp) rfl flags
    | _ => simp [RequestContext.advance] at advanced
  | cancelAndFinish reason terminal failure =>
    cases advanced
    exact tracked_tryFinish (by simp) rfl ⟨flags.admitted, flags.seen⟩
  | cancel reason =>
    cases advanced
    exact .plain (by simp) (by simp) (by simp) trivial rfl ⟨flags.admitted, flags.seen⟩
  | markSeen =>
    cases advanced
    exact .plain (by simp) (by simp) (by simp) trivial rfl ⟨flags.admitted, flags.seen.store⟩
  | readAdmitted answer =>
    simp only [RequestContext.advance] at advanced
    split at advanced
    · cases advanced
      apply Tracked.plain <;> simp [flags]
    · rename_i client
      cases advanced
      split
      · rename_i read
        exact .plain (by simp) (by simp) (by simp) ⟨not_not.1 client, flags.admitted.latest_of_load read⟩ rfl flags
      · apply Tracked.plain <;> simp [flags]
  | readSeen answer =>
    cases advanced
    split
    · rename_i read
      exact .plain (by simp) (by simp) (by simp) ⟨knows.1, knows.2, flags.seen.latest_of_load read⟩ rfl flags
    · apply Tracked.plain <;> simp [flags]
  | claimRecord answer =>
    cases advanced
    constructor
    case recorded => exact fun knows _ => .inr knows
    case flags => exact ⟨flags.admitted, flags.seen⟩
    all_goals split <;> simp
  | countFailure terminal failure =>
    cases advanced
    split <;> apply Tracked.plain <;> simp [flags]
  | readRole =>
    cases advanced
    split <;> apply Tracked.plain <;> simp [flags]
  | returned answer => simp [RequestContext.advance] at advanced
  | _ =>
    cases advanced
    apply Tracked.plain <;> simp [flags]

theorem advance_balanced (fits : progress.Fits method)
    (advanced : context.advance moment metrics method progress = some (changed, view, counted, later)) :
    Balanced method context changed metrics counted progress later := by
  cases progress with
  | started =>
    cases advanced
    exact start_balanced
  | finish terminal failure => exact finish_balanced fits advanced
  | readCancellation failure =>
    have finishes : method.finishes = true := fits
    cases method with
    | finalizeResponse statusCode responseSent =>
      simp only [RequestContext.advance] at advanced
      split at advanced
      · cases advanced
        apply Balanced.look <;> simp [finishes]
      · cases advanced
        exact .look (fits_tryFinish finishes) (by simp) idle_tryFinish (by simp) (by simp)
    | _ => simp [RequestContext.advance] at advanced
  | cancelAndFinish reason terminal failure =>
    cases advanced
    exact .idle (fits_tryFinish fits) trivial idle_tryFinish rfl rfl rfl (by simp) (by simp)
  | cancel reason =>
    have cancels : method.finishes = false := fits
    cases advanced
    exact .idle trivial trivial (idle_returned cancels) rfl rfl rfl (by simp) (by simp)
  | markSeen =>
    cases advanced
    simp only [RequestProgress.Fits] at fits
    apply Balanced.idle <;> simp [fits, RequestMethod.finishes]
  | countTerminal terminal failure => exact count_balanced fits advanced (by simp)
  | countFailure terminal failure => exact count_balanced fits advanced (by simp)
  | countResponse => exact count_balanced fits advanced (by simp)
  | readRole => exact count_balanced fits advanced (by simp)
  | countOwner => exact count_balanced fits advanced (by simp)
  | countRecord answer => exact count_balanced fits advanced (by simp)
  | countAdmitted => exact record_balanced fits advanced trivial
  | readAdmitted answer => exact record_balanced fits advanced trivial
  | readSeen answer => exact record_balanced fits advanced trivial
  | claimRecord answer => exact record_balanced fits advanced trivial
  | returned answer => simp [RequestContext.advance] at advanced

theorem Balanced.keeps_admitted (balanced : Balanced method context changed metrics counted progress later)
    (admitted : context.workAdmitted.latest = true) : changed.workAdmitted.latest = true := by
  simp [balanced.admitted, admitted]

theorem Balanced.keeps_seen (balanced : Balanced method context changed metrics counted progress later)
    (seen : context.capacityFailureSeen.latest = true) : changed.capacityFailureSeen.latest = true := by
  simp [balanced.seen, seen]

theorem Balanced.keeps_knows {other : RequestProgress}
    (balanced : Balanced method context changed metrics counted progress later) (knows : other.Knows context) :
    other.Knows changed := by
  cases other with
  | readSeen answer => exact ⟨balanced.kind.trans knows.1, balanced.keeps_admitted knows.2⟩
  | claimRecord answer =>
    exact ⟨balanced.kind.trans knows.1, balanced.keeps_admitted knows.2.1, balanced.keeps_seen knows.2.2⟩
  | _ => trivial

theorem records_owed (advanced : context.advance moment metrics method progress = some (changed, view, counted, later))
    (records : progress.Records) (client : context.kind = .client) (unrecorded : changed.isRecorded = false) :
    later.Records ∨ progress.Overlooks context moment := by
  cases progress with
  | countAdmitted =>
    cases advanced
    exact .inl trivial
  | readAdmitted answer =>
    simp only [RequestContext.advance, client, ne_eq, not_true_eq_false, if_false] at advanced
    cases advanced
    cases read : (moment.load .workAdmitted context.workAdmitted).1 with
    | true => exact .inl trivial
    | false => exact .inr read
  | readSeen answer =>
    cases advanced
    cases read : (moment.load .capacityFailureSeen context.capacityFailureSeen).1 with
    | true => exact .inl trivial
    | false => exact .inr read
  | claimRecord answer =>
    cases advanced
    simp [RequestContext.isRecorded] at unrecorded
  | _ => simp at records

/-- A debt that a step leaves is the debt of the same call, or an older one, for which the call was not there or went
away over a lowered flag. -/
theorem advance_owed (fits : progress.Fits method)
    (advanced : context.advance moment metrics method progress = some (changed, view, counted, later))
    (owes : changed.Owes) :
    later.Records ∨ context.Owes ∧ (¬progress.Records ∨ progress.Overlooks context moment) := by
  have balanced := advance_balanced fits advanced
  obtain ⟨client, admitted, seen, unrecorded⟩ := owes
  rw [balanced.kind] at client
  rw [balanced.admitted, Bool.or_eq_true, decide_eq_true_eq] at admitted
  rw [balanced.seen, Bool.or_eq_true, decide_eq_true_eq] at seen
  rcases seen with seen | rfl
  · by_cases before : context.workAdmitted.latest = true
    · have old : context.Owes := ⟨client, before, seen, by simpa using mt balanced.noted (by simp [unrecorded])⟩
      by_cases records : progress.Records
      · exact (records_owed advanced records client unrecorded).imp_right fun late => ⟨old, .inr late⟩
      · exact .inr ⟨old, .inl records⟩
    · obtain ⟨rfl, rfl, -⟩ := admitted.resolve_left before
      cases advanced
      simp [RequestContext.start, client, before]
  · cases advanced
    exact .inl trivial

end Steps

namespace RequestCall

def finishedOn (context : Nat) (call : RequestCall) : Nat :=
  if call.context = context then call.progress.finished call.method else 0

def succeededOn (context : Nat) (call : RequestCall) : Bool :=
  call.context = context && call.method.finishes && call.progress = .returned true

end RequestCall

-- How many newer writes a load passes over.
def RequestAction.age : RequestAction → Nat
  | .advance _ age _ => age
  | _ => 0

namespace RequestLifecycle

structure Reported (calls : List RequestCall) (index : Nat) (context : RequestContext) : Prop where
  admitted : context.workAdmitted.latest = true ↔ context.kind = .client ∧
    ∃ call ∈ calls, call.context = index ∧ call.method = .markWorkAdmitted ∧ call.progress ≠ .started
  seen : context.capacityFailureSeen.latest = true ↔
    ∃ call ∈ calls, call.context = index ∧ call.method = .suggestFailure .capacity ∧ call.progress ≠ .started ∧
      call.progress ≠ .markSeen

structure Sound (state : RequestLifecycle) : Prop where
  placed : ∀ call ∈ state.calls, call.context < state.contexts.length
  fits : ∀ call ∈ state.calls, call.progress.Fits call.method
  terminal : state.metrics.terminalSum + total (fun call => call.progress.terminalDue) state.calls =
    total (fun context => context.isFinished.toNat) state.contexts
  failure : state.metrics.failureSum + total (fun call => call.progress.failureDue) state.calls =
    total (fun context => context.isFinished.toNat) state.contexts
  response : state.metrics.successfulResponses + total (fun call => call.progress.responseDue) state.calls =
    total (fun context => context.isSuccessful.toNat) state.contexts
  record : state.metrics.serverCapacityFailureAfterAdmission + total (fun call => call.progress.recordDue) state.calls =
    total (fun context => context.isRecorded.toNat) state.contexts
  finished : ∀ index, total (RequestCall.finishedOn index) state.calls =
    state.contexts[index]?.elim 0 fun context => context.isFinished.toNat
  knows : ∀ call ∈ state.calls, ∀ context, state.contexts[call.context]? = some context → call.progress.Knows context
  reported : ∀ index context, state.contexts[index]? = some context → Reported state.calls index context
  recorded : ∀ context ∈ state.contexts, context.isRecorded = true →
    context.kind = .client ∧ context.workAdmitted.latest = true ∧ context.capacityFailureSeen.latest = true
  flags : ∀ context ∈ state.contexts, context.Flags

variable {state next : RequestLifecycle} {kind : RequestContextKind} {method : RequestMethod}
  {index place thread source target age : Nat} {expired : Bool}

theorem initial_sound : initial.Sound := by
  constructor <;> simp [initial, RequestLifecycleMetrics.terminalSum, RequestLifecycleMetrics.failureSum,
    RequestTerminalState.counted, RequestFailureAttribution.counted]

theorem Sound.create (sound : state.Sound) (stepped : state.step (.create kind) = some next) : next.Sound := by
  cases stepped
  have outcome : 0 ≠ encodeOutcome .completed .none := by decide
  have none : ∀ call ∈ state.calls, call.context ≠ state.contexts.length :=
    fun call member => Nat.ne_of_lt (sound.placed call member)
  constructor
  case placed =>
    intro call member
    have placed := sound.placed call member
    simp only [List.length_append, List.length_singleton]
    omega
  case fits => exact sound.fits
  case terminal => simpa [RequestContext.isFinished] using sound.terminal
  case failure => simpa [RequestContext.isFinished] using sound.failure
  case response => simpa [RequestContext.isSuccessful, outcome] using sound.response
  case record => simpa [RequestContext.isRecorded] using sound.record
  case finished =>
    intro index
    have finished := sound.finished index
    simp only [lookup_concat]
    by_cases last : index = state.contexts.length
    next =>
      subst last
      simpa [RequestContext.isFinished] using finished
    next => simpa only [last, if_false] using finished
  case knows =>
    intro call member context present
    have before : call.context ≠ state.contexts.length := none call member
    exact sound.knows call member context (by simpa [lookup_concat, before] using present)
  case reported =>
    apply forall_lookup_concat
    next =>
      constructor <;> simp
      · exact fun _ call member here => absurd here (none call member)
      · exact fun call member here => absurd here (none call member)
    next => exact sound.reported
  case recorded =>
    intro context member
    rcases List.mem_append.mp member with old | last
    · exact sound.recorded context old
    · simp [List.mem_singleton.mp last, RequestContext.isRecorded]
  case flags =>
    intro context member
    rcases List.mem_append.mp member with old | last
    · exact sound.flags context old
    · rw [List.mem_singleton.mp last]
      exact ⟨⟨rfl, by simp⟩, ⟨rfl, by simp⟩⟩

theorem Sound.call (sound : state.Sound) (stepped : state.step (.call thread place method) = some next) :
    next.Sound := by
  obtain ⟨⟨_, here⟩, same⟩ := Option.ite_none_right_eq_some.mp stepped
  cases same
  constructor
  case placed =>
    intro call member
    rcases List.mem_append.mp member with old | last
    · exact sound.placed call old
    · rw [List.mem_singleton.mp last]
      exact here
  case fits =>
    intro call member
    rcases List.mem_append.mp member with old | last
    · exact sound.fits call old
    · rw [List.mem_singleton.mp last]
      trivial
  case terminal => simpa using sound.terminal
  case failure => simpa using sound.failure
  case response => simpa using sound.response
  case record => simpa using sound.record
  case finished =>
    intro index
    simpa [RequestCall.finishedOn] using sound.finished index
  case knows =>
    intro call member context present
    rcases List.mem_append.mp member with old | last
    · exact sound.knows call old context present
    · rw [List.mem_singleton.mp last]
      trivial
  case reported =>
    intro index context present
    have reported := sound.reported index context present
    constructor
    · simpa [or_and_right, exists_or] using reported.admitted
    · simpa [or_and_right, exists_or] using reported.seen
  case recorded => exact sound.recorded
  case flags => exact sound.flags

theorem Sound.synchronise (sound : state.Sound) (stepped : state.step (.synchronise source target) = some next) :
    next.Sound := by
  obtain ⟨_, same⟩ := Option.ite_none_right_eq_some.mp stepped
  cases same
  obtain ⟨placed, fits, terminal, failure, response, record, finished, knows, reported, recorded, flags⟩ := sound
  exact ⟨placed, fits, terminal, failure, response, record, finished, knows, reported, recorded, flags⟩

theorem Sound.reported_advance {call : RequestCall} {context changed : RequestContext} {counted : RequestLifecycleMetrics}
    {later : RequestProgress} (sound : state.Sound) (here : state.calls[index]? = some call)
    (there : state.contexts[call.context]? = some context)
    (balanced : Balanced call.method context changed state.metrics counted call.progress later)
    (tracked : Tracked call.method context changed call.progress later) :
    ∀ place found, (state.contexts.set call.context changed)[place]? = some found →
      Reported (state.calls.set index { call with progress := later }) place found := by
  have moved := tracked.moved
  refine forall_lookup_set there ?_ ?_
  next =>
    have before := sound.reported call.context context there
    constructor
    case admitted =>
      have admitted := before.admitted
      rw [exists_mem_iff here] at admitted
      rw [exists_mem_set_iff here, balanced.kind, balanced.admitted, Bool.or_eq_true, admitted, decide_eq_true_eq]
      generalize (∃ other found, other ≠ index ∧ state.calls[other]? = some found ∧ found.context = call.context ∧
        found.method = .markWorkAdmitted ∧ found.progress ≠ .started) = others
      by_cases started : call.progress = .started <;> (simp [started, moved]; try tauto)
    case seen =>
      have seen := before.seen
      rw [exists_mem_iff here] at seen
      rw [exists_mem_set_iff here, balanced.seen, Bool.or_eq_true, seen, decide_eq_true_eq]
      generalize (∃ other found, other ≠ index ∧ state.calls[other]? = some found ∧ found.context = call.context ∧
        found.method = .suggestFailure .capacity ∧ found.progress ≠ .started ∧ found.progress ≠ .markSeen) = others
      have fits := sound.fits call (List.mem_of_getElem? here)
      have marked := tracked.marked
      have marks := tracked.marks
      by_cases started : call.progress = .started
      · simp only [started, moved, ne_eq] at marks ⊢
        by_cases reports : call.method = .suggestFailure .capacity
        · simp [reports, marks reports]
        · simp [reports]
      · by_cases marking : call.progress = .markSeen
        · simp only [marking, RequestProgress.Fits] at fits marked ⊢
          have unmarked : later ≠ .markSeen := fun again => by simp at marked; exact marked again
          simp [fits, moved, unmarked]
        · have unmarked : later ≠ .markSeen := fun again => started (marked again)
          simp [started, marking, moved, unmarked]
  next =>
    intro other found apart present
    have before := sound.reported other found present
    constructor
    case admitted =>
      rw [exists_mem_set_iff here, before.admitted, exists_mem_iff here]
      simp only [Ne.symm apart, false_and]
    case seen =>
      rw [exists_mem_set_iff here, before.seen, exists_mem_iff here]
      simp only [Ne.symm apart, false_and]

def momentOf (state : RequestLifecycle) (call : RequestCall) (age : Nat) (expired : Bool) : RequestMoment :=
  ⟨call.context, state.views call.thread, age, expired⟩

theorem advance_cases (stepped : state.step (.advance index age expired) = some next) :
    ∃ call context changed view counted later, state.calls[index]? = some call ∧
      state.contexts[call.context]? = some context ∧
      context.advance (state.momentOf call age expired) state.metrics call.method call.progress =
        some (changed, view, counted, later) ∧
      next = { contexts := state.contexts.set call.context changed,
               calls := state.calls.set index { call with progress := later }, metrics := counted,
               views := Function.update state.views call.thread view } := by
  obtain ⟨call, here, stepped⟩ := Option.bind_eq_some_iff.mp stepped
  obtain ⟨context, there, stepped⟩ := Option.bind_eq_some_iff.mp stepped
  obtain ⟨⟨changed, view, counted, later⟩, advanced, rfl⟩ := Option.map_eq_some_iff.mp stepped
  exact ⟨call, context, changed, view, counted, later, here, there, advanced, rfl⟩

theorem Sound.advance (sound : state.Sound) (stepped : state.step (.advance index age expired) = some next) :
    next.Sound := by
  obtain ⟨call, context, changed, view, counted, later, here, there, advanced, rfl⟩ := advance_cases stepped
  have member : call ∈ state.calls := List.mem_of_getElem? here
  have balanced := advance_balanced (sound.fits call member) advanced
  have tracked := advance_tracked (sound.flags context (List.mem_of_getElem? there))
    (sound.knows call member context there) advanced
  have moved (amount : RequestCall → Nat) := @total_set _ state.calls index _ { call with progress := later } amount here
  have settled (amount : RequestContext → Nat) := @total_set _ state.contexts call.context _ changed amount there
  constructor
  case placed =>
    intro other known
    simp only [List.length_set]
    rcases List.mem_or_eq_of_mem_set known with old | rfl
    · exact sound.placed other old
    · exact sound.placed call member
  case fits =>
    intro other known
    rcases List.mem_or_eq_of_mem_set known with old | rfl
    · exact sound.fits other old
    · exact balanced.fits
  case terminal =>
    have calls := moved fun call => call.progress.terminalDue
    have contexts := settled fun context => context.isFinished.toNat
    have before := sound.terminal
    have step := balanced.terminal
    dsimp only at calls contexts ⊢
    omega
  case failure =>
    have calls := moved fun call => call.progress.failureDue
    have contexts := settled fun context => context.isFinished.toNat
    have before := sound.failure
    have step := balanced.failure
    dsimp only at calls contexts ⊢
    omega
  case response =>
    have calls := moved fun call => call.progress.responseDue
    have contexts := settled fun context => context.isSuccessful.toNat
    have before := sound.response
    have step := balanced.response
    dsimp only at calls contexts ⊢
    omega
  case record =>
    have calls := moved fun call => call.progress.recordDue
    have contexts := settled fun context => context.isRecorded.toNat
    have before := sound.record
    have step := balanced.record
    dsimp only at calls contexts ⊢
    omega
  case finished =>
    intro place
    have calls := moved (RequestCall.finishedOn place)
    have before := sound.finished place
    have step := balanced.finished
    simp only [RequestCall.finishedOn] at calls
    rw [lookup_set there]
    by_cases same : place = call.context
    · subst same
      simp only [there, Option.elim_some, if_true] at before calls ⊢
      omega
    · simp only [same, Ne.symm same, if_false] at calls ⊢
      omega
  case knows =>
    intro other known found present
    rw [lookup_set there] at present
    rcases List.mem_or_eq_of_mem_set known with old | rfl
    · by_cases same : other.context = call.context
      · simp only [same, if_true, Option.some.injEq] at present
        exact present ▸ balanced.keeps_knows (sound.knows other old context (same ▸ there))
      · exact sound.knows other old found (by simpa [same] using present)
    · simp only [if_true, Option.some.injEq] at present
      exact present ▸ tracked.knows
  case reported => exact sound.reported_advance here there balanced tracked
  case recorded =>
    intro found known recorded
    rcases List.mem_or_eq_of_mem_set known with old | rfl
    · exact sound.recorded found old recorded
    · have facts : context.kind = .client ∧ context.workAdmitted.latest = true ∧
          context.capacityFailureSeen.latest = true := by
        rcases tracked.recorded (sound.knows call member context there) recorded with old | fresh
        · exact sound.recorded context (List.mem_of_getElem? there) old
        · exact fresh
      exact ⟨balanced.kind.trans facts.1, balanced.keeps_admitted facts.2.1, balanced.keeps_seen facts.2.2⟩
  case flags =>
    intro found known
    rcases List.mem_or_eq_of_mem_set known with old | rfl
    · exact sound.flags found old
    · exact tracked.flags

theorem Sound.step {action : RequestAction} (sound : state.Sound) (stepped : state.step action = some next) :
    next.Sound := by
  cases action with
  | create kind => exact sound.create stepped
  | call thread place method => exact sound.call stepped
  | synchronise source target => exact sound.synchronise stepped
  | advance index age expired => exact sound.advance stepped

theorem run_sound {actions : List RequestAction} (ran : runSteps RequestLifecycle.step initial actions = some state) :
    state.Sound :=
  runSteps_keeps Sound.step initial_sound ran

-- Where a capacity failure is still to be recorded, a call is under way that will look for it.
def Owed (state : RequestLifecycle) : Prop :=
  ∀ index context, state.contexts[index]? = some context → context.Owes →
    ∃ call ∈ state.calls, call.context = index ∧ call.progress.Records

/-- While both flags of a client are raised and nothing is recorded, the only call under way that can still record it
reads no flag as lowered. -/
def Timely (state : RequestLifecycle) : RequestAction → Prop
  | .advance index age expired => ∀ call context, state.calls[index]? = some call →
    state.contexts[call.context]? = some context → context.Owes →
    call.progress.Overlooks context (state.momentOf call age expired) →
    ∃ other found, other ≠ index ∧ state.calls[other]? = some found ∧ found.context = call.context ∧
      found.progress.Records
  | _ => True

theorem timely_of_latest {action : RequestAction} (latest : action.age = 0) : state.Timely action := by
  cases action with
  | advance index age expired =>
    obtain rfl : age = 0 := latest
    intro call context _ _ owes overlooks
    obtain ⟨_, admitted, seen, _⟩ := owes
    cases progress : call.progress with
    | readAdmitted answer =>
      rw [progress] at overlooks
      have read : (context.workAdmitted.load (call.context, .workAdmitted) (state.views call.thread) 0).1 = false :=
        overlooks
      rw [Atomic.load_latest, admitted] at read
      cases read
    | readSeen answer =>
      rw [progress] at overlooks
      have read : (context.capacityFailureSeen.load (call.context, .capacityFailureSeen) (state.views call.thread)
        0).1 = false := overlooks
      rw [Atomic.load_latest, seen] at read
      cases read
    | _ => simp [progress] at overlooks
  | _ => trivial

theorem Owed.advance (sound : state.Sound) (owed : state.Owed) (timely : state.Timely (.advance index age expired))
    (stepped : state.step (.advance index age expired) = some next) : next.Owed := by
  obtain ⟨call, context, changed, view, counted, later, here, there, advanced, rfl⟩ := advance_cases stepped
  refine forall_lookup_set there ?_ ?_
  next =>
    intro owes
    rw [exists_mem_set_iff here]
    rcases advance_owed (sound.fits call (List.mem_of_getElem? here)) advanced owes with records | ⟨old, leaves⟩
    · exact .inl ⟨rfl, records⟩
    · have holder := owed call.context context there old
      rw [exists_mem_iff here] at holder
      rcases leaves with idle | overlooks
      · exact .inr (holder.resolve_left fun mine => idle mine.2)
      · exact .inr (timely call context here there old overlooks)
  next =>
    intro other found apart present owes
    have holder := owed other found present owes
    rw [exists_mem_iff here] at holder
    rw [exists_mem_set_iff here]
    exact .inr (holder.resolve_left fun mine => apart mine.1.symm)

theorem Owed.step {action : RequestAction} (sound : state.Sound) (owed : state.Owed) (timely : state.Timely action)
    (stepped : state.step action = some next) : next.Owed := by
  cases action with
  | create kind =>
    cases stepped
    apply forall_lookup_concat
    next => simp [RequestContext.Owes]
    next => exact owed
  | call thread place method =>
    obtain ⟨_, same⟩ := Option.ite_none_right_eq_some.mp stepped
    cases same
    intro index context present owes
    obtain ⟨call, member, there, records⟩ := owed index context present owes
    exact ⟨call, List.mem_append_left _ member, there, records⟩
  | synchronise source target =>
    obtain ⟨_, same⟩ := Option.ite_none_right_eq_some.mp stepped
    cases same
    exact owed
  | advance index age expired => exact owed.advance sound timely stepped

theorem run_owed {actions : List RequestAction} (timely : StepsMeet RequestLifecycle.step Timely initial actions)
    (ran : runSteps RequestLifecycle.step initial actions = some state) : state.Owed := by
  let Kept (state : RequestLifecycle) : Prop := state.Sound ∧ state.Owed
  have start : Kept initial := ⟨initial_sound, fun _ _ present => by simp [initial] at present⟩
  have keeps {state next : RequestLifecycle} {action : RequestAction} (kept : Kept state) (met : state.Timely action)
      (stepped : state.step action = some next) : Kept next :=
    ⟨kept.1.step stepped, kept.2.step kept.1 met stepped⟩
  exact (@runSteps_keeps_meeting _ _ _ _ _ _ _ Kept keeps start timely ran).2

def Quiet (state : RequestLifecycle) : Prop :=
  ∀ call ∈ state.calls, ∃ answer, call.progress = .returned answer

def reportedBoth (state : RequestLifecycle) (context : RequestContext) (index : Nat) : Bool :=
  context.kind = .client &&
    state.calls.any (fun call => call.context = index && call.method = .markWorkAdmitted) &&
    state.calls.any (fun call => call.context = index && call.method = .suggestFailure .capacity)

structure ExactlyAccounted (state : RequestLifecycle) : Prop where
  once : ∀ index, state.calls.countP (RequestCall.succeededOn index) ≤ 1
  finished : ∀ index, ∀ call ∈ state.calls, call.succeededOn index = true →
    ∃ context, state.contexts[index]? = some context ∧ context.isFinished = true
  lasting : ∀ (actions : List RequestAction) (later : RequestLifecycle) (index : Nat) (context : RequestContext),
    runSteps RequestLifecycle.step state actions = some later → state.contexts[index]? = some context →
      context.isFinished = true →
        ∃ changed, later.contexts[index]? = some changed ∧
          changed.terminalOutcome.latest = context.terminalOutcome.latest
  terminal : state.Quiet → state.metrics.terminalSum = state.contexts.countP RequestContext.isFinished
  failure : state.Quiet → state.metrics.failureSum = state.contexts.countP RequestContext.isFinished
  response : state.Quiet → state.metrics.successfulResponses = state.contexts.countP RequestContext.isSuccessful

def CapacityAccounted (state : RequestLifecycle) : Prop :=
  state.Quiet → state.metrics.serverCapacityFailureAfterAdmission =
    state.contexts.zipIdx.countP fun entry => state.reportedBoth entry.1 entry.2

theorem Quiet.nothing {amount : RequestCall → Nat} (quiet : state.Quiet)
    (returned : ∀ call answer, call.progress = .returned answer → amount call = 0) : total amount state.calls = 0 := by
  apply total_eq_zero_iff.mpr
  intro call member
  obtain ⟨answer, done⟩ := quiet call member
  exact returned call answer done

theorem Sound.keeps_outcome {action : RequestAction} {context : RequestContext} (sound : state.Sound)
    (stepped : state.step action = some next) (here : state.contexts[index]? = some context)
    (finished : context.terminalOutcome.latest ≠ 0) :
    ∃ changed, next.contexts[index]? = some changed ∧
      changed.terminalOutcome.latest = context.terminalOutcome.latest := by
  cases action with
  | create kind =>
    cases stepped
    have inside : index < state.contexts.length := (List.getElem?_eq_some_iff.mp here).1
    exact ⟨context, by simpa [List.getElem?_append_left inside] using here, rfl⟩
  | call thread place method =>
    obtain ⟨_, same⟩ := Option.ite_none_right_eq_some.mp stepped
    cases same
    exact ⟨context, here, rfl⟩
  | synchronise source target =>
    obtain ⟨_, same⟩ := Option.ite_none_right_eq_some.mp stepped
    cases same
    exact ⟨context, here, rfl⟩
  | advance place age expired =>
    obtain ⟨call, old, changed, view, counted, later, called, there, advanced, rfl⟩ := advance_cases stepped
    have balanced := advance_balanced (sound.fits call (List.mem_of_getElem? called)) advanced
    simp only [lookup_set there]
    by_cases same : index = call.context
    · subst same
      obtain rfl := Option.some.inj (there.symm.trans here)
      exact ⟨changed, by simp, balanced.lasting finished⟩
    · exact ⟨context, by simpa [same] using here, rfl⟩

theorem Sound.lasting {actions : List RequestAction} {later : RequestLifecycle} {context : RequestContext}
    (sound : state.Sound) (ran : runSteps RequestLifecycle.step state actions = some later)
    (here : state.contexts[index]? = some context) (finished : context.terminalOutcome.latest ≠ 0) :
    ∃ changed, later.contexts[index]? = some changed ∧
      changed.terminalOutcome.latest = context.terminalOutcome.latest := by
  let Kept (state : RequestLifecycle) : Prop := state.Sound ∧
    ∃ changed, state.contexts[index]? = some changed ∧ changed.terminalOutcome.latest = context.terminalOutcome.latest
  have keeps {state next : RequestLifecycle} {action : RequestAction} (kept : Kept state)
      (stepped : state.step action = some next) : Kept next := by
    obtain ⟨sound, changed, there, same⟩ := kept
    obtain ⟨again, still, kept⟩ := sound.keeps_outcome stepped there (same ▸ finished)
    exact ⟨sound.step stepped, again, still, kept.trans same⟩
  exact (@runSteps_keeps _ _ _ _ _ _ Kept keeps ⟨sound, context, here, rfl⟩ ran).2

theorem any_reports {calls : List RequestCall} :
    calls.any (fun call => call.context = index && call.method = method) = true ↔
      ∃ call ∈ calls, call.context = index ∧ call.method = method := by
  simp [List.any_eq_true]

theorem Sound.recorded_iff {context : RequestContext} (sound : state.Sound) (owed : state.Owed) (quiet : state.Quiet)
    (here : state.contexts[index]? = some context) :
    context.isRecorded = true ↔ state.reportedBoth context index = true := by
  have reported := sound.reported index context here
  have returned {call : RequestCall} (member : call ∈ state.calls) :
      call.progress ≠ .started ∧ call.progress ≠ .markSeen ∧ ¬call.progress.Records := by
    obtain ⟨answer, done⟩ := quiet call member
    simp [done]
  have admitted : context.workAdmitted.latest = true ↔ context.kind = .client ∧
      ∃ call ∈ state.calls, call.context = index ∧ call.method = .markWorkAdmitted := by
    rw [reported.admitted]
    constructor
    · rintro ⟨client, call, member, there, marks, _⟩
      exact ⟨client, call, member, there, marks⟩
    · rintro ⟨client, call, member, there, marks⟩
      exact ⟨client, call, member, there, marks, (returned member).1⟩
  have seen : context.capacityFailureSeen.latest = true ↔
      ∃ call ∈ state.calls, call.context = index ∧ call.method = .suggestFailure .capacity := by
    rw [reported.seen]
    constructor
    · rintro ⟨call, member, there, suggests, _⟩
      exact ⟨call, member, there, suggests⟩
    · rintro ⟨call, member, there, suggests⟩
      exact ⟨call, member, there, suggests, (returned member).1, (returned member).2.1⟩
  unfold reportedBoth
  rw [Bool.and_eq_true, Bool.and_eq_true, any_reports, any_reports, ← seen, decide_eq_true_eq]
  constructor
  · intro recorded
    have facts := sound.recorded context (List.mem_of_getElem? here) recorded
    exact ⟨admitted.mp facts.2.1, facts.2.2⟩
  · rintro ⟨both, failed⟩
    by_contra unrecorded
    obtain ⟨call, member, _, records⟩ := owed index context here
      ⟨both.1, admitted.mpr both, failed, by simpa using unrecorded⟩
    exact (returned member).2.2 records

theorem Sound.capacity_accounted (sound : state.Sound) (owed : state.Owed) : state.CapacityAccounted := by
  intro quiet
  have record := sound.record
  rw [quiet.nothing fun call answer done => by simp [done], Nat.add_zero, total_toNat] at record
  have indexed : state.contexts.countP RequestContext.isRecorded =
      state.contexts.zipIdx.countP fun entry => entry.1.isRecorded := by
    calc
      _ = (state.contexts.zipIdx.map Prod.fst).countP RequestContext.isRecorded := by
        rw [List.zipIdx_map_fst]
      _ = _ := List.countP_map
  rw [record, indexed]
  apply List.countP_congr
  intro entry member
  exact sound.recorded_iff owed quiet (List.mem_zipIdx_iff_getElem?.mp member)

theorem Sound.exactly_accounted (sound : state.Sound) : state.ExactlyAccounted := by
  have succeeds (index : Nat) (call : RequestCall) : (call.succeededOn index).toNat ≤ call.finishedOn index := by
    cases succeeded : call.succeededOn index with
    | false => simp
    | true =>
      simp only [RequestCall.succeededOn, Bool.and_eq_true, decide_eq_true_eq] at succeeded
      simp [RequestCall.finishedOn, succeeded]
  constructor
  case once =>
    intro index
    have finished := sound.finished index
    have bounded := @total_mono _ state.calls _ _ fun call _ => succeeds index call
    have most : (state.contexts[index]?.elim 0 fun context => context.isFinished.toNat) ≤ 1 := by
      cases state.contexts[index]? with
      | none => simp
      | some context => exact Bool.toNat_le _
    rw [total_toNat] at bounded
    omega
  case finished =>
    intro index call member succeeded
    obtain ⟨place, there⟩ := List.mem_iff_getElem?.mp member
    have finished := sound.finished index
    have one := @le_total _ _ _ _ (RequestCall.finishedOn index) there
    have least := succeeds index call
    rw [succeeded, Bool.toNat_true] at least
    cases here : state.contexts[index]? with
    | none =>
      simp only [here, Option.elim_none] at finished
      omega
    | some context =>
      refine ⟨context, rfl, ?_⟩
      simp only [here, Option.elim_some] at finished
      by_contra unfinished
      simp only [Bool.not_eq_true] at unfinished
      simp only [unfinished, Bool.toNat_false] at finished
      omega
  case lasting =>
    intro actions later index context ran here finished
    exact sound.lasting ran here (by simpa [RequestContext.isFinished] using finished)
  case terminal =>
    intro quiet
    have terminal := sound.terminal
    rwa [quiet.nothing fun call answer done => by simp [done], Nat.add_zero, total_toNat] at terminal
  case failure =>
    intro quiet
    have failure := sound.failure
    rwa [quiet.nothing fun call answer done => by simp [done], Nat.add_zero, total_toNat] at failure
  case response =>
    intro quiet
    have response := sound.response
    rwa [quiet.nothing fun call answer done => by simp [done], Nat.add_zero, total_toNat] at response

/-- The first part holds of every run, the second one of those in which no step overlooks a report. -/
theorem terminal_accounting_exact {actions : List RequestAction}
    (ran : runSteps RequestLifecycle.step initial actions = some state) :
    state.ExactlyAccounted ∧ (StepsMeet RequestLifecycle.step Timely initial actions → state.CapacityAccounted) :=
  ⟨(run_sound ran).exactly_accounted, fun timely => (run_sound ran).capacity_accounted (run_owed timely ran)⟩

-- A capacity failure and an admission are reported by two threads, every load takes the latest write, and the
-- request is finished.
def oneRejected : List RequestAction :=
  [.create .client, .call 0 0 (.suggestFailure .capacity), .call 1 0 .markWorkAdmitted] ++
    [0, 1, 0, 1, 0, 1, 1, 0, 0, 0, 1].map (.advance · 0 false) ++
    [.call 1 0 (.finalizeResponse 503 true)] ++ List.replicate 5 (.advance 2 0 false)

theorem terminal_accounting_exact_one_rejected :
    ∃ state, runSteps RequestLifecycle.step initial oneRejected = some state ∧ state.ExactlyAccounted ∧
      state.CapacityAccounted := by
  have latest : ∀ action ∈ oneRejected, action.age = 0 := by decide
  have timely : StepsMeet RequestLifecycle.step Timely initial oneRejected :=
    StepsMeet.of_forall fun action member _ => timely_of_latest (latest action member)
  have ran : runSteps RequestLifecycle.step initial oneRejected = some _ := rfl
  exact ⟨_, ran, (terminal_accounting_exact ran).1, (terminal_accounting_exact ran).2 timely⟩

-- Each of the two threads reads the flag of the other one as it was before the other's write.
def bothMissed : List RequestAction :=
  [.create .client, .call 0 0 (.suggestFailure .capacity), .call 1 0 .markWorkAdmitted, .advance 0 0 false,
    .advance 0 0 false, .advance 1 0 false, .advance 1 0 false, .advance 0 1 false, .advance 1 0 false,
    .advance 1 1 false]

theorem terminal_accounting_missed :
    ∃ state, runSteps RequestLifecycle.step initial bothMissed = some state ∧ state.Quiet ∧
      state.metrics.serverCapacityFailureAfterAdmission = 0 ∧
      (state.contexts.zipIdx.countP fun entry => state.reportedBoth entry.1 entry.2) = 1 := by
  refine ⟨_, rfl, ?_, rfl, rfl⟩
  intro call member
  rcases List.mem_cons.mp member with rfl | member
  · exact ⟨true, rfl⟩
  · obtain rfl := List.mem_singleton.mp member
    exact ⟨true, rfl⟩

end RequestLifecycle

end SubConverter.Server
