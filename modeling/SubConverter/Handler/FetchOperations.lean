import SubConverter.Lib.Interleaving
import SubConverter.Lib.Delimited

set_option autoImplicit false

namespace SubConverter.Handler

inductive AsyncFetchFailure where
  | none
  | cancelled
  | deadline
  | sizeLimit
  | capacity
  | dns
  | tls
  | proxy
  | transport
  | shutdown
deriving DecidableEq, Repr

structure CacheFetchPayload where
  statusCode : Nat
  failure : AsyncFetchFailure
  content : Text
deriving DecidableEq, Repr

-- `none` stands for an exception and for a payload that is missing.
abbrev Published := Option CacheFetchPayload

def Published.good (result : Published) : Bool := result.any fun payload => payload.statusCode = 200 && payload.failure = .none

section Operations

inductive CacheFetchOwnerKind where
  | sync
  | async
deriving DecidableEq, Repr

structure CacheFetchOperation where
  key : Text
  ownerKind : CacheFetchOwnerKind
  -- Whether the work of an asynchronous owner was handed over.
  working : Bool := false
  done : Option Published := none
  abandoned : Bool := false
  consumers : Nat := 0
  callbacks : List Nat := []
  -- The callbacks that `finish` has swapped out and not started yet.
  delivering : List Nat := []
  -- The history: how the transfer ended, unless a cancellation or a deadline cut it off.
  answered : Option Published := none
deriving DecidableEq, Repr

inductive AttachResult where
  | attached
  | completed
  | abandoned
  | retired
deriving DecidableEq, Repr

inductive Subscription where
  | refused
  | registered
  | finished (result : Published)
deriving DecidableEq, Repr

namespace CacheFetchOperation

variable (operation : CacheFetchOperation)

def attachResult : AttachResult :=
  match operation.done with
  | some result => if result.good then .completed else .retired
  | none => if operation.abandoned then .abandoned else .attached

def attachConsumer : CacheFetchOperation :=
  if operation.attachResult = .attached then { operation with consumers := operation.consumers + 1 } else operation

def releaseConsumer : CacheFetchOperation :=
  if operation.consumers = 0 then operation
  else { operation with
    consumers := operation.consumers - 1
    abandoned := operation.abandoned || (operation.consumers = 1 && operation.done.isNone) }

/-- What `subscribe` does with a callback; it asks whether the operation was given up before it asks for a result. -/
def subscription : Subscription :=
  if operation.abandoned then .refused
  else
    match operation.done with
    | some result => .finished result
    | none => .registered

def subscribe (index : Nat) : CacheFetchOperation :=
  if operation.subscription = .registered then { operation with callbacks := operation.callbacks ++ [index] } else operation

def unsubscribe (index : Nat) : CacheFetchOperation := { operation with callbacks := operation.callbacks.erase index }

def finish (result : Published) : CacheFetchOperation :=
  if operation.done.isSome then operation
  else { operation with done := some result, delivering := operation.callbacks, callbacks := [] }

def answer (result : Published) : CacheFetchOperation :=
  if operation.done.isSome then operation else { operation.finish result with answered := some result }

end CacheFetchOperation

end Operations

section Calls

inductive FetchStage where
  | entered
  | looking
  | attaching (operation : Nat) (owner : Bool)
  | erasing (operation : Nat)
  | joining (operation : Nat) (owner attached : Bool)
  | dropping (operation : Nat) (owner attached : Bool)
  | failing (operation : Nat)
  | subscribing (operation : Nat) (owner : Bool)
  | invoking (operation : Nat) (owner : Bool)
  | setting (operation : Nat) (owner : Bool)
  | unsubscribing (operation : Nat) (owner : Bool)
  | starting (operation : Nat) (owner : Bool)
  | transferring (operation : Nat) (attached : Bool)
  | waiting (operation : Nat) (owner attached : Bool)
  | cleaning (operation : Nat) (attached : Bool)
  | releasing (operation : Nat) (attached : Bool)
  | returned
deriving DecidableEq, Repr

inductive FetchOutcome where
  | cancelled
  | direct
  | published (operation : Nat) (result : Published)
deriving DecidableEq, Repr

/-- A call of `webGetOwnedAsync` with its consumer, or a run of `executeCached`. -/
structure FetchCall where
  ownerKind : CacheFetchOwnerKind
  -- Without a key the call is answered by itself: a blocked url, one that is not cached, a data url.
  key : Option Text
  stage : FetchStage := .entered
  -- The context of the request is cancelled or past its deadline.
  cancelled : Bool := false
  completionClaimed : Bool := false
  subscriptionDetached : Bool := false
  operation : Option Nat := none
  operationAttached : Bool := false
  subscribed : Bool := false
  -- The history: the operation whose `subscribe` has returned, what the completion was invoked with, and what a
  -- synchronous call has waited for, with whether it made the transfer itself.
  joined : Option Nat := none
  outcomes : List FetchOutcome := []
  received : Option (Nat × Bool × Published) := none
deriving DecidableEq, Repr

inductive CompletionOrigin where
  | cancellation
  | own
  | publication (operation : Nat)
deriving DecidableEq, Repr

inductive CompletionStage where
  | entered
  | claimed
  | detaching
  | unsubscribing (operation : Nat) (attached : Bool)
  | releasing (operation : Nat)
  | invoking
  | returned
deriving DecidableEq, Repr

/-- A call of `completeOwnedWebGetAsyncConsumer`. -/
structure Completion where
  call : Nat
  origin : CompletionOrigin
  outcome : FetchOutcome
  stage : CompletionStage := .entered
deriving DecidableEq, Repr

structure FetchState where
  registry : List (Text × CacheFetchOwnerKind × Nat) := []
  operations : List CacheFetchOperation := []
  calls : List FetchCall := []
  completions : List Completion := []
deriving DecidableEq, Repr

inductive FetchAction where
  | fetch (ownerKind : CacheFetchOwnerKind) (key : Text)
  | fetchDirect
  | advance (index : Nat)
  | cancel (index : Nat)
  | proceed (index : Nat)
  -- The network, the scheduler and the cache files, as they end the work of an asynchronous owner.
  | answer (operation : Nat) (result : Published)
  | interrupt (operation : Nat) (payload : CacheFetchPayload)
  | deliver (operation pick : Nat)
  | retire (operation : Nat)
  -- The same for the transfer that a synchronous owner makes itself.
  | transfer (index : Nat) (result : Published)
  | cut (index : Nat) (payload : CacheFetchPayload)
deriving DecidableEq, Repr

end Calls

section Steps

namespace FetchState

variable (state : FetchState)

def put (index : Nat) (call : FetchCall) : FetchState := { state with calls := state.calls.set index call }

def update (operation : Nat) (change : CacheFetchOperation → CacheFetchOperation) : FetchState :=
  { state with operations := state.operations.modify operation change }

def putCompletion (index : Nat) (completion : Completion) : FetchState :=
  { state with completions := state.completions.set index completion }

def complete (call : Nat) (origin : CompletionOrigin) (outcome : FetchOutcome) : FetchState :=
  { state with completions := state.completions ++ [{ call := call, origin := origin, outcome := outcome }] }

/-- `eraseAsyncOwnedCacheFetch`: the entry goes if it is still that of the operation. -/
def erase (operation : Nat) : FetchState :=
  { state with registry := state.registry.filter fun entry => entry.2.2 ≠ operation }

def register (key : Text) (ownerKind : CacheFetchOwnerKind) : FetchState :=
  { state with
    registry := (key, ownerKind, state.operations.length) :: state.registry
    operations := state.operations ++ [{ key := key, ownerKind := ownerKind }] }

def lookup (key : Text) (ownerKind : CacheFetchOwnerKind) : Option Nat :=
  (state.registry.find? fun entry => entry.1 = key ∧ entry.2.1 = ownerKind).map fun entry => entry.2.2

def placed (call : FetchCall) (operation : Nat) (owner attached : Bool) : FetchStage :=
  match call.ownerKind with
  | .async => .joining operation owner attached
  | .sync => if owner then .transferring operation attached else .waiting operation false attached

/-- The next step of a call, up to or through its next critical section. -/
def advance (index : Nat) (call : FetchCall) : Option FetchState :=
  let go stage := state.put index { call with stage := stage }
  match call.stage with
  | .entered =>
    match call.key with
    | none => some ((go .returned).complete index .own .direct)
    | some _ => some (go (if call.completionClaimed then .returned else .looking))
  | .looking =>
    call.key.map fun key =>
      match state.lookup key call.ownerKind with
      | some operation => go (.attaching operation false)
      | none => (go (.attaching state.operations.length true)).register key call.ownerKind
  | .attaching operation owner =>
    state.operations[operation]?.map fun found =>
      match found.attachResult with
      | .attached => (go (placed call operation owner true)).update operation .attachConsumer
      | .completed => go (placed call operation owner false)
      | .abandoned | .retired => go (.erasing operation)
  | .erasing operation => some ((go .looking).erase operation)
  | .joining operation owner attached =>
    if call.subscriptionDetached || call.completionClaimed then some (go (.dropping operation owner attached))
    else some (state.put index { call with
      stage := .subscribing operation owner, operation := some operation, operationAttached := attached })
  | .dropping operation owner attached =>
    let next := go (if owner then .failing operation else .returned)
    some (if attached then next.update operation .releaseConsumer else next)
  | .failing operation => some ((go (.cleaning operation false)).update operation fun found => found.finish none)
  | .subscribing operation owner =>
    state.operations[operation]?.map fun found =>
      match found.subscription with
      | .refused => state.put index { call with stage := .starting operation owner, joined := some operation }
      | .registered =>
        (state.put index { call with stage := .setting operation owner, joined := some operation }).update operation
          fun found => found.subscribe index
      | .finished result => (go (.invoking operation owner)).complete index .own (.published operation result)
  | .invoking operation owner =>
    -- `subscribe` runs the callback itself and returns behind it.
    if state.completions.all fun completion =>
        completion.call ≠ index || completion.origin ≠ .own || completion.stage = .returned then
      some (state.put index { call with stage := .starting operation owner, joined := some operation })
    else none
  | .setting operation owner =>
    if call.subscriptionDetached || call.operation ≠ some operation then some (go (.unsubscribing operation owner))
    else some (state.put index { call with stage := .starting operation owner, subscribed := true })
  | .unsubscribing operation owner =>
    some ((go (.starting operation owner)).update operation fun found => found.unsubscribe index)
  | .starting operation owner =>
    some (if owner then (go .returned).update operation fun found => { found with working := true } else go .returned)
  | .waiting operation owner attached =>
    (state.operations[operation]?.bind CacheFetchOperation.done).map fun result =>
      state.put index { call with
        stage := if owner then .cleaning operation attached else .releasing operation attached
        received := some (operation, owner, result) }
  | .cleaning operation attached => some ((go (.releasing operation attached)).erase operation)
  | .releasing operation attached =>
    some (if attached then (go .returned).update operation .releaseConsumer else go .returned)
  | .transferring _ _ | .returned => none

/-- The next step of a completion. -/
def proceed (index : Nat) (completion : Completion) (call : FetchCall) : Option FetchState :=
  let go stage := state.putCompletion index { completion with stage := stage }
  match completion.stage with
  | .entered =>
    if call.completionClaimed then some (go .returned)
    else some ((go .claimed).put completion.call { call with completionClaimed := true })
  | .claimed =>
    some (state.putCompletion index { completion with
      stage := .detaching, outcome := if call.cancelled then .cancelled else completion.outcome })
  | .detaching =>
    if call.subscriptionDetached then some (go .invoking)
    else
      let detached := { call with
        subscriptionDetached := true, operation := none, subscribed := false, operationAttached := false }
      match call.operation with
      | none => some ((go .invoking).put completion.call detached)
      | some operation =>
        some ((go (if call.subscribed then .unsubscribing operation call.operationAttached
          else if call.operationAttached then .releasing operation else .invoking)).put completion.call detached)
  | .unsubscribing operation attached =>
    some ((go (if attached then .releasing operation else .invoking)).update operation fun found =>
      found.unsubscribe completion.call)
  | .releasing operation => some ((go .invoking).update operation .releaseConsumer)
  | .invoking =>
    some ((go .returned).put completion.call { call with outcomes := call.outcomes ++ [completion.outcome] })
  | .returned => none

def step : FetchAction → Option FetchState
  | .fetch ownerKind key => some { state with calls := state.calls ++ [{ ownerKind := ownerKind, key := some key }] }
  | .fetchDirect => some { state with calls := state.calls ++ [{ ownerKind := .async, key := none }] }
  | .advance index => state.calls[index]?.bind (state.advance index)
  | .cancel index =>
    state.calls[index]?.bind fun call =>
      if call.cancelled then none
      else
        let cancelled := state.put index { call with cancelled := true }
        some (if call.ownerKind = .async then cancelled.complete index .cancellation .cancelled else cancelled)
  | .proceed index =>
    state.completions[index]?.bind fun completion =>
      state.calls[completion.call]?.bind (state.proceed index completion)
  | .answer operation result =>
    state.operations[operation]?.bind fun found =>
      if found.working && found.done.isNone then some (state.update operation fun found => found.answer result) else none
  | .interrupt operation payload =>
    -- The work is cancelled when the last consumer has left.
    state.operations[operation]?.bind fun found =>
      if found.working && found.abandoned && found.done.isNone && payload.failure = .cancelled then
        some (state.update operation fun found => found.finish (some payload))
      else none
  | .deliver operation pick =>
    state.operations[operation]?.bind fun found =>
      found.done.bind fun result =>
        found.delivering[pick]?.map fun call =>
          (state.update operation fun found => { found with delivering := found.delivering.eraseIdx pick }).complete call
            (.publication operation) (.published operation result)
  | .retire operation =>
    state.operations[operation]?.bind fun found =>
      if found.working && found.done.isSome && found.delivering = [] then some (state.erase operation) else none
  | .transfer index result =>
    state.calls[index]?.bind fun call =>
      match call.stage with
      | .transferring operation attached =>
        some ((state.put index { call with stage := .waiting operation true attached }).update operation
          fun found => found.answer result)
      | _ => none
  | .cut index payload =>
    -- The transfer runs under the token and the deadline of its owner's request.
    state.calls[index]?.bind fun call =>
      match call.stage with
      | .transferring operation attached =>
        if call.cancelled && (payload.failure = .cancelled || payload.failure = .deadline) then
          some ((state.put index { call with stage := .waiting operation true attached }).update operation
            fun found => found.finish (some payload))
        else none
      | _ => none

end FetchState

end Steps

end SubConverter.Handler
