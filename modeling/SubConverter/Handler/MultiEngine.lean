import SubConverter.Handler.FetchOperations
import SubConverter.Handler.FetchSources
import SubConverter.Lib.Keyed
import SubConverter.Server.Cancellation

set_option autoImplicit false

namespace SubConverter.Handler

open Server

section Results

inductive CurlCode where
  | ok
  | couldntResolveProxy
  | couldntResolveHost
  | couldntConnect
  | operationTimedout
  | recvError
  | sendError
  | gotNothing
  | partialFile
  | abortedByCallback
  | filesizeExceeded
  | writeError
  | sslConnectError
  | peerFailedVerification
  | sslCacertBadfile
  | proxy
  | loginDenied
  | failedInit
  | urlMalformat
  | unknownOption
  | other (code : Nat)
deriving DecidableEq, Repr

def isRecoverableCurlError : CurlCode → Bool
  | .couldntResolveProxy | .couldntResolveHost | .couldntConnect | .operationTimedout | .recvError | .sendError
  | .gotNothing | .partialFile => true
  | _ => false

structure AsyncFetchRequest where
  method : Method := .get
  url : Text := []
  cookies : Text := []
  captureContent : Bool := true
  captureResponseHeaders : Bool := false
  captureCookies : Bool := false
  keepRespOnFail : Bool := false
  -- `none` is `time_point::max()`.
  deadline : Option Nat := none
  -- The token, by the cancellation state that it shares; a default token has none.
  cancellation : Option Nat := none
  requestContext : Bool := false
  retainResultBytes : Bool := false
deriving DecidableEq, Repr

structure AsyncFetchResult where
  statusCode : Int := 0
  transportCode : CurlCode := .ok
  failure : AsyncFetchFailure := .none
  content : List UInt8 := []
  responseHeaders : List UInt8 := []
  cookies : Text := []
  usedProxy : Bool := false
  proxyError : Int := 0
  retainedBytes : Nat := 0
deriving DecidableEq, Repr

structure CurlProgressData where
  sizeLimit : Int := 0
  deadline : Option Nat := none
  cancellation : Option Nat := none
  requestContext : Bool := false
  contextRetainedBytes : Nat := 0
  abortReason : AsyncFetchFailure := .none
deriving DecidableEq, Repr

def classifyAsyncFailure (code : CurlCode) (progress : CurlProgressData) : AsyncFetchFailure :=
  if progress.abortReason ≠ .none then progress.abortReason
  else match code with
    | .ok => .none
    | .abortedByCallback => .cancelled
    | .operationTimedout => .deadline
    | .filesizeExceeded => .sizeLimit
    | .couldntResolveHost | .couldntResolveProxy => .dns
    | .sslConnectError | .peerFailedVerification | .sslCacertBadfile => .tls
    | .proxy | .loginDenied => .proxy
    | _ => .transport

/-- In milliseconds; `hash` is `std::hash` of a string. -/
def recoverableRetryDelay (hash : Text → UInt64) (url : Text) (retryAttempt : Nat) (uniqueSeed : UInt64)
    (performanceMode : Bool) : Nat :=
  if !performanceMode then 200
  else
    let base := ([200, 500, 1000] : List UInt64).getD (min retryAttempt 2) 1000
    let spread := max 1 (base / 2)
    let mixed := hash url ^^^ (uniqueSeed + 0x9e3779b97f4a7c15 + (uniqueSeed <<< (6 : UInt64)) + (uniqueSeed >>> (2 : UInt64)))
    (base + mixed % spread).toNat

end Results

section Limits

structure EngineResources where
  effectiveMode : Text
  startupBudgetApplied : Bool
  suggestedOutboundConnections : Nat
  nofileSoft : Nat
  memoryHighBytes : Nat
  memoryMaxBytes : Nat
  hostTotalMemoryBytes : Nat
  maxEntries : Nat
deriving DecidableEq, Repr

def performanceFetchMode (resources : EngineResources) : Bool :=
  (resources.effectiveMode = chars "force_max" && resources.startupBudgetApplied) ||
    resources.effectiveMode = chars "adaptive"

structure EngineLimits where
  performanceMode : Bool
  maxRetries : Nat
  -- Zero is no window.
  handleWindow : Nat
  hostConnections : Nat
  activeConnectionLimit : Nat
  openConnectionLimit : Nat
  connectionCacheLimit : Nat
deriving DecidableEq, Repr

def longMax : Nat := 2 ^ 63 - 1

def memoryBoundary (resources : EngineResources) : Nat :=
  [resources.memoryHighBytes, resources.memoryMaxBytes, resources.hostTotalMemoryBytes].foldl
    (fun boundary candidate =>
      if candidate ≠ 0 then if boundary = 0 then candidate else min boundary candidate else boundary) 0

def cachedConnections (resources : EngineResources) (active : Nat) : Nat :=
  let scaled := if uint64Max / 16 < active then uint64Max else active * 16
  let desired := max active (min scaled (max 1 resources.maxEntries))
  let cached := min 1024 desired
  let cached := if resources.nofileSoft ≠ 0 then min cached (max active (resources.nofileSoft / 4)) else cached
  let boundary := memoryBoundary resources
  if boundary ≠ 0 then min cached (max (min active 1024) (boundary / (512 * 1024))) else cached

def engineLimits (resources : EngineResources) : EngineLimits :=
  let performance := performanceFetchMode resources
  let total := if performance then max 1 (min resources.suggestedOutboundConnections 1024) else 64
  let cached := if performance then cachedConnections resources total else total
  { performanceMode := performance
    maxRetries := if performance then 3 else 1
    handleWindow := if performance then total else 0
    hostConnections := if performance then total else min 16 total
    activeConnectionLimit := total
    openConnectionLimit := min (max total cached) longMax
    connectionCacheLimit := min cached longMax }

end Limits

namespace CurlMultiEngine

/-- `easy` is the handle of the attempt under way. -/
structure Transfer where
  request : AsyncFetchRequest
  sizeLimit : Int
  easy : Option Nat := none
  progress : CurlProgressData := {}
  result : AsyncFetchResult := {}
  completed : Bool := false
  retryAttempts : Nat := 0
  retryJitterSeed : UInt64
  retryAt : Option Nat := none
  -- The history: how often a handle was given to libcurl, and what the completion was called with.
  attempts : Nat := 0
  answers : List AsyncFetchResult := []
deriving DecidableEq, Repr

/-- What libcurl tells about an attempt that has ended. -/
structure AttemptInfo where
  status : Int
  usedProxy : Bool
  proxyError : Int
  cookies : List Text
deriving DecidableEq, Repr

/-- How `configure` ends; a route without a valid proxy and a refused trust option leave a handle behind. -/
inductive ConfigureOutcome where
  | noHandle
  | invalidRoute (easy : Nat)
  | trustRefused (easy : Nat)
  | ready (easy : Nat)
deriving DecidableEq, Repr

def expired (deadline : Option Nat) (now : Nat) : Bool := deadline.any fun deadline => decide (deadline ≤ now)

namespace Transfer

def abort (transfer : Transfer) (reason : AsyncFetchFailure) : Transfer :=
  { transfer with progress := { transfer.progress with abortReason := reason } }

/-- The end of `configure`, with a handle. -/
def configured (transfer : Transfer) (easy : Nat) : Transfer :=
  { transfer with
    easy := easy
    progress := { transfer.progress with
      sizeLimit := transfer.sizeLimit
      deadline := transfer.request.deadline
      cancellation := transfer.request.cancellation
      requestContext := transfer.progress.requestContext ||
        (transfer.request.requestContext && !transfer.request.retainResultBytes) } }

def retain (transfer : Transfer) (bytes : Nat) : Transfer :=
  if transfer.progress.requestContext then
    { transfer with progress := { transfer.progress with
        contextRetainedBytes := transfer.progress.contextRetainedBytes + bytes } }
  else { transfer with result := { transfer.result with retainedBytes := transfer.result.retainedBytes + bytes } }

/-- `retained` is the answer of the pool of retained bytes. -/
def bodyWriter (transfer : Transfer) (data : List UInt8) (retained : Bool) : Transfer :=
  if !transfer.request.captureContent then transfer
  else if 0 < transfer.sizeLimit ∧
      transfer.sizeLimit.toNat - min transfer.result.content.length transfer.sizeLimit.toNat < data.length then
    transfer.abort .sizeLimit
  else if !retained then transfer.abort .capacity
  else
    let charged := transfer.retain data.length
    { charged with result := { charged.result with content := charged.result.content ++ data } }

def headerWriter (transfer : Transfer) (data : List UInt8) (retained : Bool) : Transfer :=
  if !transfer.request.captureResponseHeaders then transfer
  else if !retained then transfer.abort .capacity
  else
    let charged := transfer.retain data.length
    { charged with result := { charged.result with responseHeaders := charged.result.responseHeaders ++ data } }

/-- The results of an attempt, as far as `finish` fills them in before it decides on a retry. -/
def close (transfer : Transfer) (code : CurlCode) (attempt : AttemptInfo) : Transfer :=
  let result := if transfer.easy = none then transfer.result else
    { transfer.result with
      statusCode := attempt.status
      usedProxy := attempt.usedProxy
      proxyError := attempt.proxyError
      cookies := if transfer.request.captureCookies
        then attempt.cookies.foldl (fun cookies item => cookies ++ item ++ chars "\r\n") transfer.result.cookies
        else transfer.result.cookies }
  let failed := !transfer.request.keepRespOnFail && (code ≠ .ok || result.statusCode ≠ 200)
  { transfer with
    easy := none
    result := { result with
      transportCode := code
      failure := classifyAsyncFailure code transfer.progress
      content := if failed then [] else result.content } }

def complete (transfer : Transfer) : Transfer :=
  if transfer.completed then transfer
  else { transfer with completed := true, answers := transfer.answers ++ [transfer.result] }

def retry (transfer : Transfer) (retryAt : Nat) : Transfer :=
  { transfer with
    request := { transfer.request with
      cookies := if transfer.result.cookies = [] then transfer.request.cookies else transfer.result.cookies }
    result := {}
    progress := {}
    retryAttempts := transfer.retryAttempts + 1
    retryAt := some retryAt }

end Transfer

/-- Where the worker stands in `run`. The lists are those that the function in progress keeps for itself. -/
inductive WorkerStage where
  | pruning
  | pruneTesting (now : Nat)
  | pruneLocked (now : Nat)
  | finishingPruned (now : Nat) (cancelled : List Nat)
  | delaying (now position : Nat)
  -- A transfer on its way into `startTransfer`, from `processDelayed` at this time and position, or from
  -- `processPending`.
  | starting (transfer : Nat) (delayed : Option (Nat × Nat))
  | dispatching
  | performing
  | draining
  | expiring
  -- The reason is written into the progress data when the list is made.
  | finishingExpired (cancelled : List (Nat × AsyncFetchFailure))
  | checking
  | cancellingActive (active pending : List Nat)
  | finishingPending (pending : List Nat)
  | drainingDelayed
  | deciding
  | waiting
  | exited
deriving DecidableEq, Repr

/-- Where a call of `shutdown` stands. -/
inductive ShutdownStage where
  | joins
  | closes
  | awaits
  | returned (onWorker : Bool)
deriving DecidableEq, Repr

/-- What the worker learns from libcurl and the allocator; `order` is the order of `active_`. -/
structure WorkerInput where
  configure : ConfigureOutcome := .noHandle
  added : Bool := false
  attempt : AttemptInfo := ⟨0, false, 0, []⟩
  allocated : Bool := true
  message : Option (Nat × CurlCode) := none
  order : List (Nat × Nat) := []
deriving DecidableEq, Repr

/-- What libcurl calls back for while transfers are performed. -/
inductive Callback where
  | body (data : List UInt8) (retained : Bool)
  | header (data : List UInt8) (retained : Bool)
  | progress (downloaded : Int)
deriving DecidableEq, Repr

end CurlMultiEngine

structure CurlMultiEngine where
  available : Bool
  stopping : Bool
  pending : List Nat
  delayed : List Nat
  active : List (Nat × Nat)
  pendingCount : Nat
  activeCount : Nat
  pendingPruneRequested : Bool
  nextPendingDeadline : Option Nat
  nextRetryJitterSeed : UInt64
  worker : CurlMultiEngine.WorkerStage
  transfers : List CurlMultiEngine.Transfer
  -- Outside of the engine: the clock, the cancellation states and the flag of the process.
  now : Nat
  cancellations : List RequestCancellationReason
  outboundFetchShutdownRequested : Bool
  joining : Bool
  joined : Bool
  shutdowns : List CurlMultiEngine.ShutdownStage
deriving DecidableEq, Repr

namespace CurlMultiEngine

inductive EngineAction where
  | tick (elapsed : Nat)
  | createToken
  | cancel (token : Nat) (reason : RequestCancellationReason)
  -- The callback that a transfer has registered with its token.
  | requestPrune
  | requestOutboundShutdown
  | submit (request : AsyncFetchRequest) (sizeLimit : Int)
  | shutdown (onWorker : Bool)
  | advanceShutdown (index : Nat)
  | callback (easy : Nat) (callback : Callback)
  | worker (input : WorkerInput)
deriving DecidableEq, Repr

/-- After the constructor; without libcurl's multi interface there is no worker. -/
def initial (available : Bool) : CurlMultiEngine :=
  { available := available, stopping := false, pending := [], delayed := [], active := [], pendingCount := 0
    activeCount := 0, pendingPruneRequested := false, nextPendingDeadline := none, nextRetryJitterSeed := 1
    worker := if available then .pruning else .exited, transfers := [], now := 0, cancellations := []
    outboundFetchShutdownRequested := false, joining := false, joined := false, shutdowns := [] }

section Operations

variable (limits : EngineLimits) (hash : Text → UInt64) (engine : CurlMultiEngine)

def reason (token : Option Nat) : RequestCancellationReason :=
  (token.bind fun token => engine.cancellations[token]?).getD .none

def isCancellationRequested (token : Option Nat) : Bool := engine.reason token ≠ .none

def windowFull : Bool := limits.handleWindow ≠ 0 && limits.handleWindow ≤ engine.active.length

def submit (request : AsyncFetchRequest) (sizeLimit : Int) : CurlMultiEngine :=
  let transfer : Transfer :=
    { request := request, sizeLimit := sizeLimit, retryJitterSeed := engine.nextRetryJitterSeed }
  let engine := { engine with nextRetryJitterSeed := engine.nextRetryJitterSeed + 1 }
  if engine.stopping || !engine.available then
    let failure : AsyncFetchFailure := if engine.stopping then .shutdown else .transport
    let rejected := { transfer with result := { transportCode := .abortedByCallback, failure := failure } }
    { engine with transfers := engine.transfers ++ [rejected.complete] }
  else
    { engine with
      transfers := engine.transfers ++ [transfer]
      pending := engine.pending ++ [engine.transfers.length]
      pendingCount := add64 engine.pendingCount 1
      -- `notePendingDeadline`, which is called under the lock.
      nextPendingDeadline := (engine.nextPendingDeadline.merge min request.deadline) }

def shutdown (onWorker : Bool) : Option CurlMultiEngine :=
  if engine.joined then some { engine with shutdowns := engine.shutdowns ++ [.returned false] }
  else
    let engine := { engine with stopping := true }
    if onWorker then
      if engine.worker = .exited then none else some { engine with shutdowns := engine.shutdowns ++ [.returned true] }
    else if engine.joining then some { engine with shutdowns := engine.shutdowns ++ [.awaits] }
    else some { engine with joining := true, shutdowns := engine.shutdowns ++ [.joins] }

def advanceShutdown (index : Nat) : ShutdownStage → Option CurlMultiEngine
  | .joins =>
    if engine.worker = .exited then
      some { engine with available := false, shutdowns := engine.shutdowns.set index .closes }
    else none
  | .closes =>
    some { engine with joined := true, joining := false, shutdowns := engine.shutdowns.set index (.returned false) }
  | .awaits => if engine.joined then some { engine with shutdowns := engine.shutdowns.set index (.returned false) } else none
  | .returned _ => none

def sizeChecker (transfer : Transfer) (downloaded : Int) : Transfer :=
  if engine.outboundFetchShutdownRequested then transfer.abort .shutdown
  else if engine.isCancellationRequested transfer.progress.cancellation then transfer.abort .cancelled
  else if expired transfer.progress.deadline engine.now then transfer.abort .deadline
  else if transfer.progress.sizeLimit ≠ 0 ∧ transfer.progress.sizeLimit < downloaded then transfer.abort .sizeLimit
  else transfer

def called (transfer : Transfer) : Callback → Transfer
  | .body data retained => transfer.bodyWriter data retained
  | .header data retained => transfer.headerWriter data retained
  | .progress downloaded => engine.sizeChecker transfer downloaded

def retryDelay (transfer : Transfer) : Nat :=
  recoverableRetryDelay hash transfer.request.url transfer.retryAttempts transfer.retryJitterSeed
    (limits.performanceMode && transfer.request.method = .get)

def retryLimit (transfer : Transfer) : Nat :=
  if limits.performanceMode && transfer.request.method = .get then limits.maxRetries else 1

/-- The condition of a retry in `finish`; the clock counts nanoseconds. -/
def retries (transfer : Transfer) (code : CurlCode) : Bool :=
  (code ≠ .ok && (transfer.request.method = .get || transfer.request.method = .head) && isRecoverableCurlError code) &&
    transfer.retryAttempts < retryLimit limits transfer && !engine.stopping && !engine.outboundFetchShutdownRequested &&
    !engine.isCancellationRequested transfer.request.cancellation &&
    transfer.request.deadline.all fun deadline =>
      decide (engine.now + retryDelay limits hash transfer * 1000000 < deadline)

def finish (index : Nat) (transfer : Transfer) (code : CurlCode) (added : Bool) (input : WorkerInput) :
    CurlMultiEngine :=
  let closed := transfer.close code input.attempt
  let engine := { engine with
    activeCount := if added then sub64 engine.activeCount 1 else engine.activeCount
    active := transfer.easy.elim engine.active fun easy => Keyed.erase easy engine.active }
  if engine.retries limits hash transfer code && input.allocated then
    { engine with
      transfers := engine.transfers.set index
        (closed.retry (engine.now + retryDelay limits hash transfer * 1000000))
      delayed := engine.delayed ++ [index]
      pendingCount := add64 engine.pendingCount 1 }
  else { engine with transfers := engine.transfers.set index closed.complete }

def doomed (transfer : Transfer) (now : Nat) : Bool :=
  engine.isCancellationRequested transfer.request.cancellation || expired transfer.request.deadline now

def doomedAt (now index : Nat) : Bool := engine.transfers[index]?.any fun transfer => engine.doomed transfer now

/-- The reason that `prunePending` and `processDelayed` give a transfer which is cancelled or past its deadline. -/
def doomReason (transfer : Transfer) (now : Nat) : AsyncFetchFailure :=
  if engine.reason transfer.request.cancellation = .shutdown then .shutdown
  else if engine.reason transfer.request.cancellation = .deadline ∨ expired transfer.request.deadline now then .deadline
  else .cancelled

def doomCode (reason : AsyncFetchFailure) : CurlCode :=
  if reason = .deadline then .operationTimedout else .abortedByCallback

def giveUp (index : Nat) (transfer : Transfer) (reason : AsyncFetchFailure) (input : WorkerInput) : CurlMultiEngine :=
  engine.finish limits hash index (transfer.abort reason) (doomCode reason) false input

def nextDeadline (pending : List Nat) : Option Nat :=
  pending.foldl (fun next index => next.merge min (engine.transfers[index]?.bind fun transfer => transfer.request.deadline))
    none

/-- The critical section of `prunePending`. -/
def prune (now : Nat) : CurlMultiEngine :=
  let cancelled := engine.pending.filter (engine.doomedAt now)
  let kept := engine.pending.filter fun index => !engine.doomedAt now index
  { engine with
    pending := kept
    pendingCount := sub64 engine.pendingCount cancelled.length
    nextPendingDeadline := engine.nextDeadline kept
    worker := .finishingPruned now cancelled }

def fresh (easy : Nat) : Bool := engine.transfers.all fun transfer => transfer.easy ≠ some easy

def startTransfer (index : Nat) (transfer : Transfer) (input : WorkerInput) : Option CurlMultiEngine :=
  let transfer := { transfer with retryAt := none }
  if engine.stopping then some (engine.giveUp limits hash index transfer .shutdown input)
  else if engine.isCancellationRequested transfer.request.cancellation then
    let reason := if engine.reason transfer.request.cancellation = .shutdown then .shutdown else .cancelled
    some (engine.giveUp limits hash index transfer reason input)
  else if expired transfer.request.deadline engine.now then
    some (engine.giveUp limits hash index transfer .deadline input)
  else match input.configure with
    | .noHandle => some (engine.finish limits hash index transfer .failedInit false input)
    | .invalidRoute easy =>
      if engine.fresh easy then
        some (engine.finish limits hash index { transfer with easy := easy } .urlMalformat false input)
      else none
    | .trustRefused easy =>
      if engine.fresh easy then
        some (engine.finish limits hash index (transfer.configured easy) .unknownOption false input)
      else none
    | .ready easy =>
      if !engine.fresh easy then none
      else if input.added then
        let started := transfer.configured easy
        some { engine with
          transfers := engine.transfers.set index { started with attempts := started.attempts + 1 }
          active := Keyed.put easy index engine.active
          activeCount := add64 engine.activeCount 1 }
      else some (engine.finish limits hash index (transfer.configured easy) .failedInit false input)

/-- One turn of the loop of `processDelayed`. -/
def delayedTurn (now position index : Nat) (transfer : Transfer) (input : WorkerInput) : CurlMultiEngine :=
  let taken := { engine with delayed := engine.delayed.eraseIdx position, pendingCount := sub64 engine.pendingCount 1 }
  if engine.stopping || engine.doomed transfer now then
    let reason := if engine.stopping then .shutdown else engine.doomReason transfer now
    taken.giveUp limits hash index transfer reason input
  else if transfer.retryAt.all fun retryAt => decide (now < retryAt) then
    { engine with worker := .delaying now (position + 1) }
  else if engine.windowFull limits then { engine with worker := .delaying now (position + 1) }
  else { taken with worker := .starting index (some (now, position)) }

def expiry (index : Nat) : Option (Nat × AsyncFetchFailure) :=
  engine.transfers[index]?.bind fun transfer =>
    if engine.isCancellationRequested transfer.request.cancellation then
      some (index, if engine.reason transfer.request.cancellation = .shutdown then .shutdown else .cancelled)
    else if expired transfer.request.deadline engine.now then some (index, .deadline)
    else none

def expiring (order : List (Nat × Nat)) : List (Nat × AsyncFetchFailure) := order.filterMap fun entry => engine.expiry entry.2

def hasDispatchableWork : Bool :=
  if engine.pendingPruneRequested || expired engine.nextPendingDeadline engine.now then true
  else if engine.windowFull limits then false
  else if engine.pending ≠ [] then true
  else engine.delayed.any fun index =>
    engine.transfers[index]?.any fun transfer => expired transfer.retryAt engine.now

def workerStep (input : WorkerInput) : Option CurlMultiEngine :=
  match engine.worker with
  | .pruning =>
    if engine.pendingPruneRequested then
      some { engine with pendingPruneRequested := false, worker := .pruneLocked engine.now }
    else some { engine with worker := .pruneTesting engine.now }
  | .pruneTesting now =>
    if expired engine.nextPendingDeadline now then some { engine with worker := .pruneLocked now }
    else some { engine with worker := .delaying engine.now 0 }
  | .pruneLocked now => some (engine.prune now)
  | .finishingPruned _ [] => some { engine with worker := .delaying engine.now 0 }
  | .finishingPruned now (index :: rest) =>
    engine.transfers[index]?.map fun transfer =>
      { engine with worker := .finishingPruned now rest }.giveUp limits hash index transfer
        (engine.doomReason transfer now) input
  | .delaying now position =>
    match engine.delayed[position]? with
    | none => some { engine with worker := .dispatching }
    | some index =>
      engine.transfers[index]?.map fun transfer => engine.delayedTurn limits hash now position index transfer input
  | .dispatching =>
    match engine.pending with
    | [] => some { engine with worker := .performing }
    | index :: rest =>
      if engine.windowFull limits then some { engine with worker := .performing }
      else some { engine with
        pending := rest, pendingCount := sub64 engine.pendingCount 1, worker := .starting index none }
  | .starting index delayed =>
    engine.transfers[index]?.bind fun transfer =>
      { engine with worker := delayed.elim .dispatching fun (now, position) => .delaying now position }.startTransfer
        limits hash index transfer input
  | .performing => some { engine with worker := .draining }
  | .draining =>
    match input.message with
    | none => some { engine with worker := .expiring }
    | some (easy, code) =>
      match Keyed.find easy engine.active with
      | none => some engine
      | some index => engine.transfers[index]?.map fun transfer => engine.finish limits hash index transfer code true input
  | .expiring =>
    if input.order.Perm engine.active then
      some { engine with worker := .finishingExpired (engine.expiring input.order) }
    else none
  | .finishingExpired [] => some { engine with worker := .checking }
  | .finishingExpired ((index, reason) :: rest) =>
    engine.transfers[index]?.map fun transfer =>
      { engine with worker := .finishingExpired rest }.finish limits hash index (transfer.abort reason) (doomCode reason) true
        input
  | .checking =>
    if engine.stopping then
      if input.order.Perm engine.active then
        some { engine with
          pending := []
          pendingCount := sub64 engine.pendingCount engine.pending.length
          worker := .cancellingActive (input.order.map Prod.snd) engine.pending }
      else none
    else some { engine with worker := .deciding }
  | .cancellingActive [] pending => some { engine with worker := .finishingPending pending }
  | .cancellingActive (index :: rest) pending =>
    engine.transfers[index]?.map fun transfer =>
      { engine with worker := .cancellingActive rest pending }.finish limits hash index (transfer.abort .shutdown)
        .abortedByCallback true input
  | .finishingPending [] => some { engine with worker := .drainingDelayed }
  | .finishingPending (index :: rest) =>
    engine.transfers[index]?.map fun transfer =>
      { engine with worker := .finishingPending rest }.giveUp limits hash index transfer .shutdown input
  | .drainingDelayed =>
    match engine.delayed with
    | [] => some { engine with worker := .exited }
    | index :: rest =>
      engine.transfers[index]?.map fun transfer =>
        { engine with delayed := rest, pendingCount := sub64 engine.pendingCount 1 }.giveUp limits hash index transfer
          .shutdown input
  | .deciding =>
    some { engine with worker := if engine.hasDispatchableWork limits then .pruning else .waiting }
  | .waiting => some { engine with worker := .pruning }
  | .exited => none

def step : EngineAction → Option CurlMultiEngine
  | .tick elapsed => some { engine with now := engine.now + elapsed }
  | .createToken => some { engine with cancellations := engine.cancellations ++ [.none] }
  | .cancel token reason =>
    if engine.cancellations[token]? = some .none then
      some { engine with cancellations := engine.cancellations.set token reason }
    else none
  | .requestPrune => some { engine with pendingPruneRequested := true }
  | .requestOutboundShutdown => some { engine with outboundFetchShutdownRequested := true }
  | .submit request sizeLimit => some (engine.submit request sizeLimit)
  | .shutdown onWorker => engine.shutdown onWorker
  | .advanceShutdown index => engine.shutdowns[index]?.bind fun stage => engine.advanceShutdown index stage
  | .callback easy callback =>
    if engine.worker = .performing then
      (Keyed.find easy engine.active).bind fun index => engine.transfers[index]?.map fun transfer =>
        { engine with transfers := engine.transfers.set index (engine.called transfer callback) }
    else none
  | .worker input => engine.workerStep limits hash input

end Operations

end CurlMultiEngine

end SubConverter.Handler
