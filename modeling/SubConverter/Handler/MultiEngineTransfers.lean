import SubConverter.Handler.MultiEngine

set_option autoImplicit false

namespace SubConverter.Handler.CurlMultiEngine

namespace Transfer

def inContext (transfer : Transfer) : Bool := transfer.request.requestContext && !transfer.request.retainResultBytes

def charged (transfer : Transfer) : Nat :=
  if transfer.inContext then transfer.progress.contextRetainedBytes else transfer.result.retainedBytes

structure Fits (limits : EngineLimits) (transfer : Transfer) : Prop where
  answers : transfer.answers = if transfer.completed then [transfer.result] else []
  handle : transfer.completed = true → transfer.easy = none
  attempts : transfer.completed = false → transfer.attempts = transfer.retryAttempts + transfer.easy.isSome.toNat
  bounded : transfer.attempts ≤ transfer.retryAttempts + 1
  retries : transfer.retryAttempts ≤ retryLimit limits transfer
  idempotent : transfer.retryAttempts ≠ 0 → transfer.request.method = .get ∨ transfer.request.method = .head
  parked : transfer.completed = false → transfer.easy = none →
    transfer.result = {} ∧ transfer.progress = {}
  context : transfer.easy ≠ none → transfer.progress.requestContext = transfer.inContext
  sized : 0 < transfer.sizeLimit → transfer.result.content.length ≤ transfer.sizeLimit.toNat
  accounted : transfer.result.content.length + transfer.result.responseHeaders.length ≤ transfer.charged
  cleared : transfer.completed = true → transfer.request.keepRespOnFail = false →
    transfer.result.transportCode ≠ .ok ∨ transfer.result.statusCode ≠ 200 → transfer.result.content = []
  sound : transfer.completed = true → transfer.result.failure = .none → transfer.result.transportCode = .ok

structure Prepared (transfer prepared : Transfer) : Prop where
  request : prepared.request = transfer.request
  sizeLimit : prepared.sizeLimit = transfer.sizeLimit
  result : prepared.result = transfer.result
  completed : prepared.completed = transfer.completed
  retryAttempts : prepared.retryAttempts = transfer.retryAttempts
  attempts : prepared.attempts = transfer.attempts
  answers : prepared.answers = transfer.answers
  retained : prepared.progress.contextRetainedBytes = transfer.progress.contextRetainedBytes

inductive Evolves (limits : EngineLimits) (transfer : Transfer) : Transfer → Prop where
  | called (engine : CurlMultiEngine) (callback : Callback) (active : transfer.easy ≠ none) :
    Evolves limits transfer (engine.called transfer callback)
  | started (easy : Nat) (parked : transfer.easy = none) :
    Evolves limits transfer
      { ({ transfer with retryAt := none }.configured easy) with attempts := transfer.attempts + 1 }
  | finished {prepared : Transfer} (prepares : transfer.Prepared prepared) (code : CurlCode) (attempt : AttemptInfo) :
    Evolves limits transfer (prepared.close code attempt).complete
  | retried (code : CurlCode) (attempt : AttemptInfo) (retryAt : Nat) (active : transfer.easy ≠ none)
      (method : transfer.request.method = .get ∨ transfer.request.method = .head)
      (limit : transfer.retryAttempts < retryLimit limits transfer) :
    Evolves limits transfer ((transfer.close code attempt).retry retryAt)

section Prepared

variable {transfer : Transfer} {easy : Nat} {reason : AsyncFetchFailure}

theorem Prepared.refl : transfer.Prepared transfer := by
  constructor <;> rfl

theorem abort_prepared : transfer.Prepared (transfer.abort reason) := by
  constructor <;> rfl

theorem unscheduled_prepared : transfer.Prepared { transfer with retryAt := none } := by
  constructor <;> rfl

theorem unrouted_prepared : transfer.Prepared { transfer with easy := easy } := by
  constructor <;> rfl

theorem configured_prepared : transfer.Prepared (transfer.configured easy) := by
  constructor <;> rfl

theorem Prepared.trans {middle last : Transfer} (first : transfer.Prepared middle) (second : middle.Prepared last) :
    transfer.Prepared last where
  request := second.request.trans first.request
  sizeLimit := second.sizeLimit.trans first.sizeLimit
  result := second.result.trans first.result
  completed := second.completed.trans first.completed
  retryAttempts := second.retryAttempts.trans first.retryAttempts
  attempts := second.attempts.trans first.attempts
  answers := second.answers.trans first.answers
  retained := second.retained.trans first.retained

end Prepared

section Results

variable {transfer : Transfer} {code : CurlCode} {attempt : AttemptInfo}

theorem classify_none {progress : CurlProgressData} (none : classifyAsyncFailure code progress = .none) : code = .ok := by
  unfold classifyAsyncFailure at none
  split at none
  next aborted => exact absurd none aborted
  next => cases code <;> simp_all

theorem close_content : (transfer.close code attempt).result.content = [] ∨
    (transfer.close code attempt).result.content = transfer.result.content := by
  simp only [close]
  by_cases unhandled : transfer.easy = none
  · simp only [unhandled, if_true]
    split <;> simp
  · simp only [unhandled, if_false]
    split <;> simp

theorem close_responseHeaders :
    (transfer.close code attempt).result.responseHeaders = transfer.result.responseHeaders := by
  simp only [close]
  split <;> rfl

theorem close_retainedBytes : (transfer.close code attempt).result.retainedBytes = transfer.result.retainedBytes := by
  simp only [close]
  split <;> rfl

theorem close_content_length :
    (transfer.close code attempt).result.content.length ≤ transfer.result.content.length := by
  rcases @close_content transfer code attempt with empty | same
  · simp [empty]
  · rw [same]

theorem close_cleared (strict : transfer.request.keepRespOnFail = false)
    (failed : (transfer.close code attempt).result.transportCode ≠ .ok ∨
      (transfer.close code attempt).result.statusCode ≠ 200) :
    (transfer.close code attempt).result.content = [] := by
  simp only [close] at failed ⊢
  rw [if_pos]
  simp only [strict, Bool.not_false, Bool.true_and, decide_eq_true_eq, Bool.or_eq_true]
  exact failed

end Results

section Callbacks

variable {limits : EngineLimits} {transfer : Transfer} {data : List UInt8} {retained : Bool} {bytes : Nat}
  {reason : AsyncFetchFailure}

theorem retain_eq : transfer.retain bytes = { transfer with
    progress := { transfer.progress with contextRetainedBytes :=
      transfer.progress.contextRetainedBytes + if transfer.progress.requestContext then bytes else 0 }
    result := { transfer.result with retainedBytes :=
      transfer.result.retainedBytes + if transfer.progress.requestContext then 0 else bytes } } := by
  unfold retain
  split <;> simp only [Nat.add_zero]

theorem charged_retain (context : transfer.progress.requestContext = transfer.inContext) :
    (transfer.retain bytes).charged = transfer.charged + bytes := by
  rw [retain_eq, charged, charged]
  by_cases inside : transfer.inContext = true
  · have same := context.trans inside
    rw [if_pos inside, if_pos (by exact inside)]
    simp only [if_pos same]
  · have other : ¬transfer.progress.requestContext = true := by rwa [context]
    rw [if_neg inside, if_neg (by exact inside)]
    simp only [if_neg other]

theorem fits_abort (fits : transfer.Fits limits) (active : transfer.easy ≠ none) : (transfer.abort reason).Fits limits :=
  { fits with parked := fun _ unhandled => absurd unhandled active }

theorem fits_received {kept : Transfer} (fits : transfer.Fits limits) (active : transfer.easy ≠ none) (bytes : Nat)
    (content : List UInt8) (responseHeaders : List UInt8)
    (more : content.length + responseHeaders.length =
      transfer.result.content.length + transfer.result.responseHeaders.length + bytes)
    (sized : 0 < transfer.sizeLimit → content.length ≤ transfer.sizeLimit.toNat)
    (same : kept = { transfer.retain bytes with result :=
      { (transfer.retain bytes).result with content := content, responseHeaders := responseHeaders } }) :
    kept.Fits limits := by
  have charged : kept.charged = transfer.charged + bytes := by
    rw [← charged_retain (fits.context active), same]
    rfl
  have pending : transfer.completed = false := by
    by_contra completed
    exact active (fits.handle (by simpa using completed))
  have enough := fits.accounted
  rw [retain_eq] at same
  subst same
  exact {
    answers := by simpa [pending] using fits.answers
    handle := by simp [pending]
    attempts := fits.attempts
    bounded := fits.bounded
    retries := fits.retries
    idempotent := fits.idempotent
    parked := fun _ unhandled => absurd unhandled active
    context := fits.context
    sized := sized
    accounted := by
      rw [charged]
      simp only [more]
      omega
    cleared := by simp [pending]
    sound := by simp [pending] }

theorem fits_bodyWriter (fits : transfer.Fits limits) (active : transfer.easy ≠ none) :
    (transfer.bodyWriter data retained).Fits limits := by
  unfold bodyWriter
  split
  · exact fits
  split
  · exact fits_abort fits active
  split
  · exact fits_abort fits active
  next room _ =>
    apply fits_received fits active data.length (transfer.result.content ++ data) transfer.result.responseHeaders
      (by rw [List.length_append]; omega)
    · intro positive
      have before := fits.sized positive
      rw [List.length_append]
      simp only [positive, true_and] at room
      omega
    · simp only [retain_eq]

theorem fits_headerWriter (fits : transfer.Fits limits) (active : transfer.easy ≠ none) :
    (transfer.headerWriter data retained).Fits limits := by
  unfold headerWriter
  split
  · exact fits
  split
  · exact fits_abort fits active
  · apply fits_received fits active data.length transfer.result.content (transfer.result.responseHeaders ++ data)
      (by rw [List.length_append]; omega) fits.sized
    simp only [retain_eq]

theorem fits_called {engine : CurlMultiEngine} {callback : Callback} (fits : transfer.Fits limits)
    (active : transfer.easy ≠ none) : (engine.called transfer callback).Fits limits := by
  cases callback with
  | body data retained => exact fits_bodyWriter fits active
  | header data retained => exact fits_headerWriter fits active
  | progress downloaded =>
    simp only [called, sizeChecker]
    split
    · exact fits_abort fits active
    split
    · exact fits_abort fits active
    split
    · exact fits_abort fits active
    split
    · exact fits_abort fits active
    · exact fits

theorem called_kept {engine : CurlMultiEngine} {callback : Callback} :
    (engine.called transfer callback).easy = transfer.easy ∧
      (engine.called transfer callback).completed = transfer.completed ∧
      (engine.called transfer callback).request = transfer.request := by
  cases callback with
  | body data retained =>
    simp only [called, bodyWriter, retain_eq]
    split_ifs <;> exact ⟨rfl, rfl, rfl⟩
  | header data retained =>
    simp only [called, headerWriter, retain_eq]
    split_ifs <;> exact ⟨rfl, rfl, rfl⟩
  | progress downloaded =>
    simp only [called, sizeChecker]
    split_ifs <;> exact ⟨rfl, rfl, rfl⟩

end Callbacks

section Steps

variable {limits : EngineLimits} {transfer changed prepared : Transfer}

theorem fits_finished (fits : transfer.Fits limits) (pending : transfer.completed = false)
    (prepares : transfer.Prepared prepared) (code : CurlCode) (attempt : AttemptInfo) :
    (prepared.close code attempt).complete.Fits limits := by
  have open' : (prepared.close code attempt).completed = false := prepares.completed.trans pending
  have limit : retryLimit limits prepared = retryLimit limits transfer := by
    rw [retryLimit, prepares.request, ← retryLimit]
  have charged : prepared.charged = transfer.charged := by
    rw [Transfer.charged, inContext, prepares.request, prepares.retained, prepares.result, ← inContext, ← Transfer.charged]
  have same : (prepared.close code attempt).charged = prepared.charged := by
    unfold Transfer.charged
    rw [close_retainedBytes]
    rfl
  have answers : transfer.answers = [] := by simpa [pending] using fits.answers
  rw [complete, open']
  exact {
    answers := by
      change prepared.answers ++ _ = _
      rw [prepares.answers, answers]
      rfl
    handle := fun _ => rfl
    attempts := by simp
    bounded := by
      change prepared.attempts ≤ prepared.retryAttempts + 1
      rw [prepares.attempts, prepares.retryAttempts]
      exact fits.bounded
    retries := by
      change prepared.retryAttempts ≤ retryLimit limits prepared
      rw [prepares.retryAttempts, limit]
      exact fits.retries
    idempotent := by
      change prepared.retryAttempts ≠ 0 → prepared.request.method = .get ∨ prepared.request.method = .head
      rw [prepares.retryAttempts, prepares.request]
      exact fits.idempotent
    parked := by simp
    context := fun handled => absurd rfl handled
    sized := by
      intro positive
      change 0 < prepared.sizeLimit at positive
      rw [prepares.sizeLimit] at positive
      have before := fits.sized positive
      have shorter := @close_content_length prepared code attempt
      rw [prepares.result] at shorter
      change _ ≤ prepared.sizeLimit.toNat
      rw [prepares.sizeLimit]
      exact le_trans shorter before
    accounted := by
      have before := fits.accounted
      have shorter := @close_content_length prepared code attempt
      have headers := @close_responseHeaders prepared code attempt
      rw [prepares.result] at shorter headers
      change (prepared.close code attempt).result.content.length + (prepared.close code attempt).result.responseHeaders.length ≤
        (prepared.close code attempt).charged
      rw [same, charged, headers]
      omega
    cleared := fun _ strict failed => close_cleared strict failed
    sound := fun _ none => classify_none none }

theorem Evolves.fits (evolves : transfer.Evolves limits changed) (pending : transfer.completed = false)
    (fits : transfer.Fits limits) : changed.Fits limits := by
  cases evolves with
  | called engine callback active => exact fits_called fits active
  | started easy parked =>
    obtain ⟨result, progress⟩ := fits.parked pending parked
    have attempts := fits.attempts pending
    simp only [parked, Option.isSome_none, Bool.toNat_false, Nat.add_zero] at attempts
    exact {
      answers := fits.answers
      handle := by simp [configured, pending]
      attempts := fun _ => by simp [configured, attempts]
      bounded := by simp [configured, attempts]
      retries := fits.retries
      idempotent := fits.idempotent
      parked := by simp [configured]
      context := fun _ => by simp [configured, progress, inContext]
      sized := fits.sized
      accounted := fits.accounted
      cleared := by simp [configured, pending]
      sound := by simp [configured, pending] }
  | finished prepares code attempt => exact fits_finished fits pending prepares code attempt
  | retried code attempt retryAt active method limit =>
    have attempts := fits.attempts pending
    obtain ⟨easy, handled⟩ := Option.ne_none_iff_exists'.mp active
    rw [handled, Option.isSome_some, Bool.toNat_true] at attempts
    exact {
      answers := by
        change transfer.answers = if transfer.completed = true then _ else []
        rw [fits.answers, pending]
        rfl
      handle := fun _ => rfl
      attempts := fun _ => attempts
      bounded := by
        change transfer.attempts ≤ _
        rw [attempts]
        exact Nat.le_succ _
      retries := limit
      idempotent := fun _ => method
      parked := fun _ _ => ⟨rfl, rfl⟩
      context := fun handled => absurd rfl handled
      sized := fun _ => Nat.zero_le _
      accounted := Nat.zero_le _
      cleared := fun completed => absurd (pending.symm.trans completed) (by decide)
      sound := fun completed => absurd (pending.symm.trans completed) (by decide) }

structure SameRequest (transfer changed : Transfer) : Prop where
  deadline : changed.request.deadline = transfer.request.deadline
  cancellation : changed.request.cancellation = transfer.request.cancellation
  method : changed.request.method = transfer.request.method

theorem Evolves.sameRequest (evolves : transfer.Evolves limits changed) : transfer.SameRequest changed := by
  cases evolves with
  | called engine callback active =>
    have same := (@called_kept transfer engine callback).2.2
    constructor <;> rw [same]
  | started easy parked => constructor <;> rfl
  | @finished prepared prepares code attempt =>
    have same : (prepared.close code attempt).complete.request = transfer.request := by
      rw [← prepares.request, complete]
      split <;> rfl
    constructor <;> rw [same]
  | retried code attempt retryAt active method limit => constructor <;> rfl

end Steps

end Transfer

end SubConverter.Handler.CurlMultiEngine
