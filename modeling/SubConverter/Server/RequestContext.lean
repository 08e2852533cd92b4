import SubConverter.Lib.ReleaseAcquire
import SubConverter.Server.Cancellation

set_option autoImplicit false

namespace SubConverter.Server

inductive RequestTerminalState where
  | none
  | completed
  | rejected
  | cancelled
  | deadlineExceeded
  | failed
  | count
deriving DecidableEq, Repr

inductive RequestFailureAttribution where
  | none
  | server
  | upstream
  | user
  | client
  | capacity
  | count
deriving DecidableEq, Repr

inductive RequestSingleflightRole where
  | none
  | owner
  | follower
deriving DecidableEq, Repr

inductive RequestContextKind where
  | client
  | internalWork
deriving DecidableEq, Repr

namespace RequestTerminalState

def code : RequestTerminalState → Nat
  | .none => 0
  | .completed => 1
  | .rejected => 2
  | .cancelled => 3
  | .deadlineExceeded => 4
  | .failed => 5
  | .count => 6

/-- The states that index `terminal_counts`. -/
def counted : List RequestTerminalState := [.none, .completed, .rejected, .cancelled, .deadlineExceeded, .failed]

end RequestTerminalState

namespace RequestFailureAttribution

def code : RequestFailureAttribution → Nat
  | .none => 0
  | .server => 1
  | .upstream => 2
  | .user => 3
  | .client => 4
  | .capacity => 5
  | .count => 6

/-- The attributions that index `failure_counts`. -/
def counted : List RequestFailureAttribution := [.none, .server, .upstream, .user, .client, .capacity]

end RequestFailureAttribution

def encodeOutcome (terminal : RequestTerminalState) (failure : RequestFailureAttribution) : Nat :=
  terminal.code ||| (failure.code <<< 8)

inductive RequestField where
  | cancellation
  | drainOnShutdown
  | suggestedFailure
  | singleflightRole
  | workAdmitted
  | capacityFailureSeen
  | postAdmissionCapacityRecorded
  | terminalOutcome
deriving DecidableEq, Repr

-- A member of the context with this number.
abbrev RequestVariable := Nat × RequestField

structure RequestContext where
  kind : RequestContextKind
  cancellation : Atomic RequestVariable RequestCancellationReason := ⟨.none, []⟩
  drainOnShutdown : Atomic RequestVariable Bool := ⟨false, []⟩
  suggestedFailure : Atomic RequestVariable RequestFailureAttribution := ⟨.none, []⟩
  singleflightRole : Atomic RequestVariable RequestSingleflightRole := ⟨.none, []⟩
  workAdmitted : Atomic RequestVariable Bool := ⟨false, []⟩
  capacityFailureSeen : Atomic RequestVariable Bool := ⟨false, []⟩
  postAdmissionCapacityRecorded : Atomic RequestVariable Bool := ⟨false, []⟩
  terminalOutcome : Atomic RequestVariable Nat := ⟨0, []⟩

/-- The counters, which are only ever added to with relaxed order. -/
structure RequestLifecycleMetrics where
  terminalCounts : RequestTerminalState → Nat
  failureCounts : RequestFailureAttribution → Nat
  successfulOwners : Nat
  successfulResponses : Nat
  workAdmitted : Nat
  serverCapacityFailureAfterAdmission : Nat

inductive RequestMethod where
  | tryFinish (terminal : RequestTerminalState) (failure : RequestFailureAttribution)
  | finalizeResponse (statusCode : Int) (responseSent : Bool)
  | markWorkAdmitted
  | suggestFailure (value : RequestFailureAttribution)
  | requestCancellation (reason : RequestCancellationReason)
  | setSingleflightRole (role : RequestSingleflightRole)
  | setSendStage
deriving DecidableEq, Repr

inductive RequestProgress where
  | started
  | finish (terminal : RequestTerminalState) (failure : RequestFailureAttribution)
  | countTerminal (terminal : RequestTerminalState) (failure : RequestFailureAttribution)
  | countFailure (terminal : RequestTerminalState) (failure : RequestFailureAttribution)
  | countResponse
  | readRole
  | countOwner
  | readCancellation (failure : RequestFailureAttribution)
  | cancelAndFinish (reason : RequestCancellationReason) (terminal : RequestTerminalState)
      (failure : RequestFailureAttribution)
  | cancel (reason : RequestCancellationReason)
  | countAdmitted
  | markSeen
  | readAdmitted (answer : Bool)
  | readSeen (answer : Bool)
  | claimRecord (answer : Bool)
  | countRecord (answer : Bool)
  | returned (answer : Bool)
deriving DecidableEq, Repr

/-- What `finalizeResponse` finishes with, and the reason it cancels the request for first. -/
def finalOutcome (statusCode : Int) (responseSent expired : Bool) (cancellation : RequestCancellationReason)
    (failure : RequestFailureAttribution) :
    Option RequestCancellationReason × RequestTerminalState × RequestFailureAttribution :=
  if !responseSent then (some .clientDisconnected, .cancelled, .client)
  else if cancellation = .deadline ∨ expired = true then
    (some .deadline, .deadlineExceeded, if failure = .none then .client else failure)
  else if cancellation ≠ .none then
    (none, .cancelled,
      if failure = .none then (if cancellation = .shutdown then .server else .client) else failure)
  else if failure = .capacity then (none, .rejected, failure)
  else if failure = .client then (none, .cancelled, failure)
  else if 500 ≤ statusCode then (none, .failed, if failure = .none then .server else failure)
  else if 400 ≤ statusCode ∧ failure = .none then (none, .completed, .user)
  else (none, .completed, failure)

/-- The argument check of `tryFinish`. -/
def tryFinish (terminal : RequestTerminalState) (failure : RequestFailureAttribution) : RequestProgress :=
  if terminal = .none ∨ terminal = .count ∨ failure = .count then .returned false else .finish terminal failure

/-- What a step meets: the number of its context, what its thread knows of, the write that a load takes, counted from
the latest one, and what the clock says when the deadline is looked at. -/
structure RequestMoment where
  place : Nat
  view : View RequestVariable
  age : Nat
  expired : Bool

namespace RequestMoment

variable {α : Type} (moment : RequestMoment) (field : RequestField)

abbrev load (x : Atomic RequestVariable α) : α × View RequestVariable :=
  x.load (moment.place, field) moment.view moment.age

abbrev store (x : Atomic RequestVariable α) (value : α) : Atomic RequestVariable α × View RequestVariable :=
  x.store (moment.place, field) moment.view value

-- Every exchange of a request expects the initial value, so one that fails cannot have met an older write.
abbrev compareExchange [DecidableEq α] (x : Atomic RequestVariable α) (expected desired : α) :
    Bool × Atomic RequestVariable α × View RequestVariable :=
  x.compareExchange (moment.place, field) moment.view expected desired

end RequestMoment

namespace RequestContext

def start (context : RequestContext) (moment : RequestMoment) :
    RequestMethod → RequestContext × View RequestVariable × RequestProgress
  | .tryFinish terminal failure => (context, moment.view, tryFinish terminal failure)
  | .finalizeResponse _ _ =>
    let failure := moment.load .suggestedFailure context.suggestedFailure
    (context, failure.2, .readCancellation failure.1)
  | .markWorkAdmitted =>
    if context.kind ≠ .client then (context, moment.view, .returned false)
    else
      let admission := moment.compareExchange .workAdmitted context.workAdmitted false true
      ({ context with workAdmitted := admission.2.1 }, admission.2.2,
        if admission.1 then .countAdmitted else .returned false)
  | .suggestFailure value =>
    if value = .none ∨ value = .count then (context, moment.view, .returned true)
    else
      let suggestion := moment.compareExchange .suggestedFailure context.suggestedFailure .none value
      ({ context with suggestedFailure := suggestion.2.1 }, suggestion.2.2,
        if value = .capacity then .markSeen else .returned true)
  | .requestCancellation reason =>
    if reason = .none then (context, moment.view, .returned false)
    else if reason = .shutdown then
      let draining := moment.load .drainOnShutdown context.drainOnShutdown
      (context, draining.2, if draining.1 then .returned false else .cancel reason)
    else (context, moment.view, .cancel reason)
  | .setSingleflightRole role =>
    let changed := moment.store .singleflightRole context.singleflightRole role
    ({ context with singleflightRole := changed.1 }, changed.2, .returned true)
  | .setSendStage =>
    let changed := moment.store .drainOnShutdown context.drainOnShutdown true
    ({ context with drainOnShutdown := changed.1 }, changed.2, .returned true)

/-- One atomic operation of a call. -/
def advance (context : RequestContext) (moment : RequestMoment) (metrics : RequestLifecycleMetrics)
    (method : RequestMethod) :
    RequestProgress → Option (RequestContext × View RequestVariable × RequestLifecycleMetrics × RequestProgress)
  | .started =>
    some ((context.start moment method).1, (context.start moment method).2.1, metrics, (context.start moment method).2.2)
  | .finish terminal failure =>
    let outcome :=
      moment.compareExchange .terminalOutcome context.terminalOutcome 0 (encodeOutcome terminal failure)
    some ({ context with terminalOutcome := outcome.2.1 }, outcome.2.2, metrics,
      if outcome.1 then .countTerminal terminal failure else .returned false)
  | .countTerminal terminal failure =>
    some (context, moment.view,
      { metrics with terminalCounts :=
          Function.update metrics.terminalCounts terminal (metrics.terminalCounts terminal + 1) },
      .countFailure terminal failure)
  | .countFailure terminal failure =>
    some (context, moment.view,
      { metrics with failureCounts := Function.update metrics.failureCounts failure (metrics.failureCounts failure + 1) },
      if terminal = .completed ∧ failure = .none then .countResponse else .returned true)
  | .countResponse =>
    some (context, moment.view, { metrics with successfulResponses := metrics.successfulResponses + 1 }, .readRole)
  | .readRole =>
    let role := moment.load .singleflightRole context.singleflightRole
    some (context, role.2, metrics, if role.1 = .owner then .countOwner else .returned true)
  | .countOwner =>
    some (context, moment.view, { metrics with successfulOwners := metrics.successfulOwners + 1 }, .returned true)
  | .readCancellation failure =>
    match method with
    | .finalizeResponse statusCode responseSent =>
      let cancellation := moment.load .cancellation context.cancellation
      let outcome := finalOutcome statusCode responseSent moment.expired cancellation.1 failure
      match outcome.1 with
      | some reason => some (context, cancellation.2, metrics, .cancelAndFinish reason outcome.2.1 outcome.2.2)
      | none => some (context, cancellation.2, metrics, tryFinish outcome.2.1 outcome.2.2)
    | _ => none
  | .cancelAndFinish reason terminal failure =>
    let cancellation := moment.compareExchange .cancellation context.cancellation .none reason
    some ({ context with cancellation := cancellation.2.1 }, cancellation.2.2, metrics, tryFinish terminal failure)
  | .cancel reason =>
    let cancellation := moment.compareExchange .cancellation context.cancellation .none reason
    some ({ context with cancellation := cancellation.2.1 }, cancellation.2.2, metrics, .returned cancellation.1)
  | .countAdmitted =>
    some (context, moment.view, { metrics with workAdmitted := metrics.workAdmitted + 1 }, .readAdmitted true)
  | .markSeen =>
    let seen := moment.store .capacityFailureSeen context.capacityFailureSeen true
    some ({ context with capacityFailureSeen := seen.1 }, seen.2, metrics, .readAdmitted true)
  | .readAdmitted answer =>
    if context.kind ≠ .client then some (context, moment.view, metrics, .returned answer)
    else
      let admitted := moment.load .workAdmitted context.workAdmitted
      some (context, admitted.2, metrics, if admitted.1 then .readSeen answer else .returned answer)
  | .readSeen answer =>
    let seen := moment.load .capacityFailureSeen context.capacityFailureSeen
    some (context, seen.2, metrics, if seen.1 then .claimRecord answer else .returned answer)
  | .claimRecord answer =>
    let record :=
      moment.compareExchange .postAdmissionCapacityRecorded context.postAdmissionCapacityRecorded false true
    some ({ context with postAdmissionCapacityRecorded := record.2.1 }, record.2.2, metrics,
      if record.1 then .countRecord answer else .returned answer)
  | .countRecord answer =>
    some (context, moment.view,
      { metrics with serverCapacityFailureAfterAdmission := metrics.serverCapacityFailureAfterAdmission + 1 },
      .returned answer)
  | .returned _ => none

end RequestContext

structure RequestCall where
  thread : Nat
  context : Nat
  method : RequestMethod
  progress : RequestProgress
deriving DecidableEq, Repr

def RequestCall.isReturned (call : RequestCall) : Bool :=
  match call.progress with
  | .returned _ => true
  | _ => false

structure RequestLifecycle where
  contexts : List RequestContext
  calls : List RequestCall
  metrics : RequestLifecycleMetrics
  -- What each thread knows of.
  views : Nat → View RequestVariable

/-- By `synchronise` a thread learns what another one knows, as through a lock, a queue or a join. -/
inductive RequestAction where
  | create (kind : RequestContextKind)
  | call (thread context : Nat) (method : RequestMethod)
  | synchronise (source target : Nat)
  | advance (index age : Nat) (expired : Bool)
deriving DecidableEq, Repr

namespace RequestLifecycle

def initial : RequestLifecycle :=
  { contexts := [], calls := [], metrics := ⟨fun _ => 0, fun _ => 0, 0, 0, 0, 0⟩, views := fun _ _ => 0 }

-- The thread is in none of the calls.
def free (state : RequestLifecycle) (thread : Nat) : Bool :=
  state.calls.all fun call => call.thread ≠ thread || call.isReturned

def step (state : RequestLifecycle) : RequestAction → Option RequestLifecycle
  | .create kind => some { state with contexts := state.contexts ++ [{ kind := kind }] }
  | .call thread context method =>
    if state.free thread ∧ context < state.contexts.length then
      some { state with calls := state.calls ++ [⟨thread, context, method, .started⟩] }
    else none
  | .synchronise source target =>
    if state.free source ∧ state.free target then
      some { state with views := Function.update state.views target (state.views target ⊔ state.views source) }
    else none
  | .advance index age expired =>
    state.calls[index]?.bind fun call =>
      state.contexts[call.context]?.bind fun context =>
        let moment : RequestMoment := ⟨call.context, state.views call.thread, age, expired⟩
        (context.advance moment state.metrics call.method call.progress).map fun (changed, view, metrics, progress) =>
          { contexts := state.contexts.set call.context changed
            calls := state.calls.set index { call with progress := progress }
            metrics := metrics
            views := Function.update state.views call.thread view }

end RequestLifecycle

end SubConverter.Server
