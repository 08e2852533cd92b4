import SubConverter.Lib.Script

set_option autoImplicit false

namespace SubConverter.Handler

inductive FileCommitResult where
  | failedTemporaryRemaining
  | failed
  | durable
  | committedUnsynced
  deriving DecidableEq, Repr

def fileCommitFailed : FileCommitResult → Bool
  | .failedTemporaryRemaining | .failed => true
  | .durable | .committedUnsynced => false

/-- A file that is only replaced as a whole: what it holds, and what a crash may bring back instead. -/
structure Slot (α : Type) where
  current : Option α := none
  stale : List (Option α) := []

namespace Slot

variable {α : Type}

def possible (slot : Slot α) : List (Option α) := slot.current :: slot.stale

def write (slot : Slot α) (content : α) : FileCommitResult → Slot α
  | .failedTemporaryRemaining | .failed => slot
  | .durable => { current := some content }
  | .committedUnsynced => { current := some content, stale := slot.possible }

-- The removal of the directory entry is not synced.
def remove (slot : Slot α) : Slot α := { current := none, stale := slot.possible }

def crash (slot : Slot α) (survivor : Nat) : Slot α := { current := slot.possible.getD survivor slot.current }

end Slot

inductive CacheFile where
  | invalidation
  | body
  | header
  deriving DecidableEq, Repr

structure Written where
  call : Nat
  text : String
  deriving DecidableEq, Repr

abbrev CacheDisk := CacheFile → Slot Written

inductive CacheStep where
  | inspect (file : CacheFile)
  | fileWrite (file : CacheFile) (content : Written)
  | remove (file : CacheFile)
  | fileGet (file : CacheFile)

def CacheStep.Answer : CacheStep → Type
  | .inspect _ => Option Bool
  | .fileWrite _ _ => FileCommitResult
  | .remove _ => Bool
  | .fileGet _ => String

/-- Every step is given the result of a write as its fate; the other steps only tell success from failure. -/
def CacheStep.outcome : (step : CacheStep) → FileCommitResult → CacheDisk → step.Answer × CacheDisk
  | .inspect file, fate, disk =>
    (if fileCommitFailed fate then none else some (disk file).current.isSome, disk)
  | .fileWrite file content, fate, disk => (fate, Function.update disk file ((disk file).write content fate))
  | .remove file, fate, disk =>
    if fileCommitFailed fate then (false, disk)
    else if (disk file).current.isNone then (true, disk)
    else (true, Function.update disk file (disk file).remove)
  | .fileGet file, fate, disk =>
    (if fileCommitFailed fate then "" else ((disk file).current.map Written.text).getD "", disk)

abbrev CacheScript := Script CacheStep CacheStep.Answer

def fileWrite (file : CacheFile) (content : Written) : CacheScript FileCommitResult :=
  .act (.fileWrite file content) .done

def fileGet (file : CacheFile) : CacheScript String := .act (.fileGet file) .done

def removeInvalidation : CacheScript Bool := .act (.remove .invalidation) .done

-- A marker that cannot be inspected counts as present.
def invalidationPresent : CacheScript Bool :=
  .act (.inspect .invalidation) fun (found : Option Bool) => .done (found.getD true)

inductive CacheUpdateResult where
  | complete
  | unchanged
  | unchangedHeadersInvalidated
  | headersInvalidated
  | bodyCommittedUnsynced
  deriving DecidableEq, Repr

def updateCacheFiles (call : Nat) (body headers : String) : CacheScript CacheUpdateResult := do
  let invalidationWasPresent ← invalidationPresent
  let invalidationResult ← fileWrite .invalidation ⟨call, "invalid\n"⟩
  if invalidationResult ≠ .durable then
    if ← invalidationPresent then pure .unchangedHeadersInvalidated else pure .unchanged
  else
    let bodyResult ← fileWrite .body ⟨call, body⟩
    if fileCommitFailed bodyResult then
      if invalidationWasPresent then pure .unchangedHeadersInvalidated
      else if ← removeInvalidation then pure .unchanged
      else pure .unchangedHeadersInvalidated
    else if bodyResult = .committedUnsynced then pure .bodyCommittedUnsynced
    else
      let headerResult ← fileWrite .header ⟨call, headers⟩
      if headerResult ≠ .durable then pure .headersInvalidated
      else if ← removeInvalidation then pure .complete
      else pure .headersInvalidated

def readCachedResponseHeaders : CacheScript String := do
  if ← invalidationPresent then pure "" else fileGet .header

def CacheUpdateResult.bodyReplaced : CacheUpdateResult → Bool
  | .complete | .headersInvalidated | .bodyCommittedUnsynced => true
  | .unchanged | .unchangedHeadersInvalidated => false

-- A header text that is empty is never returned, so it need not belong to the body.
def Matched (body header : Option Written) : Prop :=
  ∀ content, header = some content → content.text ≠ "" → body.map Written.call = some content.call

def Paired (disk : CacheDisk) : Prop :=
  none ∈ (disk .invalidation).possible →
    ∀ body ∈ (disk .body).possible, ∀ header ∈ (disk .header).possible, Matched body header

variable {disk : CacheDisk}

-- The marker is there and a crash cannot take it away.
def Marked (disk : CacheDisk) : Prop := none ∉ (disk .invalidation).possible

theorem Marked.paired (marked : Marked disk) : Paired disk := fun absent => absurd absent marked

theorem body_ne_invalidation : CacheFile.body ≠ .invalidation := by decide

theorem header_ne_invalidation : CacheFile.header ≠ .invalidation := by decide

theorem Marked.update (marked : Marked disk) {file : CacheFile} (other : file ≠ .invalidation)
    (slot : Slot Written) : Marked (Function.update disk file slot) := by
  unfold Marked
  rw [Function.update_of_ne other.symm]
  exact marked

theorem marked_durable (disk : CacheDisk) (content : Written) :
    Marked (Function.update disk .invalidation ((disk .invalidation).write content .durable)) := by
  simp [Marked, Slot.possible, Slot.write]

theorem Paired.mark (paired : Paired disk) (content : Written) (fate : FileCommitResult) :
    Paired (Function.update disk .invalidation ((disk .invalidation).write content fate)) := by
  cases fate with
  | failedTemporaryRemaining | failed => simpa [Slot.write] using paired
  | durable => exact (marked_durable disk content).paired
  | committedUnsynced =>
    intro absent
    simp only [Function.update_self, Slot.write, Slot.possible, List.mem_cons, reduceCtorEq, false_or] at absent
    exact paired (List.mem_cons.mpr absent)

theorem paired_remove (matched : ∀ body ∈ (disk .body).possible, ∀ header ∈ (disk .header).possible,
    Matched body header) (slot : Slot Written) : Paired (Function.update disk .invalidation slot) :=
  fun _ => matched

section Steps

variable {α : Type} {post : α → CacheDisk → Prop}

theorem invalidationPresent_keeps {next : Bool → CacheScript α} (paired : Paired disk)
    (after : ∀ present, (present = false → (disk .invalidation).current = none) →
      (next present).Keeps CacheStep.outcome (fun _ _ _ => True) Paired post disk) :
    (invalidationPresent >>= next).Keeps CacheStep.outcome (fun _ _ _ => True) Paired post disk := by
  refine Script.Keeps.bind ⟨paired, fun fate _ => after _ ?_⟩
  by_cases failed : fileCommitFailed fate
  · simp [CacheStep.outcome, failed]
  · simp [CacheStep.outcome, failed]

theorem fileWrite_keeps {next : FileCommitResult → CacheScript α} {file : CacheFile} {content : Written}
    (paired : Paired disk)
    (after : ∀ result, (next result).Keeps CacheStep.outcome (fun _ _ _ => True) Paired post
      (Function.update disk file ((disk file).write content result))) :
    (fileWrite file content >>= next).Keeps CacheStep.outcome (fun _ _ _ => True) Paired post disk :=
  Script.Keeps.bind ⟨paired, fun result _ => after result⟩

theorem removeInvalidation_keeps {next : Bool → CacheScript α} (marked : Marked disk)
    (onKept : (next false).Keeps CacheStep.outcome (fun _ _ _ => True) Paired post disk)
    (onRemoved : (next true).Keeps CacheStep.outcome (fun _ _ _ => True) Paired post
      (Function.update disk .invalidation (disk .invalidation).remove)) :
    (removeInvalidation >>= next).Keeps CacheStep.outcome (fun _ _ _ => True) Paired post disk := by
  refine Script.Keeps.bind ⟨marked.paired, fun fate _ => ?_⟩
  have present : (disk .invalidation).current.isNone = false := by
    cases found : (disk .invalidation).current with
    | none => exact absurd (List.mem_cons.mpr (.inl found.symm)) marked
    | some _ => rfl
  by_cases failed : fileCommitFailed fate
  · simp only [CacheStep.outcome, failed, if_true]
    exact onKept
  · simp only [CacheStep.outcome, failed, present, if_false, Bool.false_eq_true]
    exact onRemoved

end Steps

theorem updateCacheFiles_keeps (paired : Paired disk) (call : Nat) (body headers : String) :
    (updateCacheFiles call body headers).Keeps CacheStep.outcome (fun _ _ _ => True) Paired
      (fun result final => Paired final ∧
        if result.bodyReplaced then (final .body).current = some ⟨call, body⟩ else final .body = disk .body)
      disk := by
  refine invalidationPresent_keeps paired fun wasPresent absent => ?_
  refine fileWrite_keeps paired fun invalidationResult => ?_
  have invalidated := paired.mark ⟨call, "invalid\n"⟩ invalidationResult
  by_cases durable : invalidationResult = .durable
  swap
  · -- The marker is not durable: nothing else is touched.
    rw [if_pos durable]
    refine invalidationPresent_keeps invalidated fun present _ => ?_
    split <;> exact ⟨invalidated, rfl⟩
  rw [if_neg (not_not.mpr durable)]
  subst durable
  have marked := marked_durable disk ⟨call, "invalid\n"⟩
  refine fileWrite_keeps invalidated fun bodyResult => ?_
  have bodyMarked := marked.update body_ne_invalidation ((disk .body).write ⟨call, body⟩ bodyResult)
  by_cases failed : fileCommitFailed bodyResult
  · rw [if_pos failed]
    have unwritten : (disk .body).write ⟨call, body⟩ bodyResult = disk .body := by
      cases bodyResult <;> first | rfl | cases failed
    cases wasPresent with
    | true => exact ⟨bodyMarked.paired, unwritten⟩
    | false =>
      -- There was no marker before the call, so the two files still belong together.
      refine removeInvalidation_keeps bodyMarked ⟨bodyMarked.paired, unwritten⟩ ⟨paired_remove ?_ _, unwritten⟩
      have matched := paired (List.mem_cons.mpr (.inl (absent rfl).symm))
      simpa [unwritten] using matched
  rw [if_neg failed]
  cases bodyResult with
  | failedTemporaryRemaining | failed => exact absurd rfl failed
  | committedUnsynced => exact ⟨bodyMarked.paired, rfl⟩
  | durable =>
    refine fileWrite_keeps bodyMarked.paired fun headerResult => ?_
    have headerMarked := bodyMarked.update header_ne_invalidation ((disk .header).write ⟨call, headers⟩ headerResult)
    by_cases durable : headerResult = .durable
    · rw [if_neg (not_not.mpr durable)]
      refine removeInvalidation_keeps headerMarked ⟨headerMarked.paired, rfl⟩ ⟨paired_remove ?_ _, rfl⟩
      subst durable
      simp [Slot.possible, Slot.write, Matched]
    · rw [if_pos durable]
      exact ⟨headerMarked.paired, rfl⟩

theorem Paired.crash (paired : Paired disk) (survivor : CacheFile → Nat) :
    Paired fun file => (disk file).crash (survivor file) := by
  have survives : ∀ file, (disk file).possible.getD (survivor file) (disk file).current ∈ (disk file).possible := by
    intro file
    rw [List.getD_eq_getElem?_getD]
    cases found : (disk file).possible[survivor file]? with
    | none => exact List.mem_cons_self
    | some content => exact List.mem_of_getElem? found
  intro absent body bodyHere header headerHere
  simp only [Slot.crash, Slot.possible, List.mem_singleton] at absent bodyHere headerHere
  rw [bodyHere, headerHere]
  exact paired (absent ▸ survives .invalidation) _ (survives .body) _ (survives .header)

theorem readCachedResponseHeaders_spec {disk : CacheDisk} {fates : List FileCommitResult} {headers : String}
    (returned : (readCachedResponseHeaders.run CacheStep.outcome fates disk).1 = some headers)
    (nonempty : headers ≠ "") :
    (disk .invalidation).current = none ∧ ∃ call, (disk .header).current = some ⟨call, headers⟩ := by
  have keeps : readCachedResponseHeaders.Keeps CacheStep.outcome (fun _ _ _ => True) (fun _ => True)
      (fun value _ => value ≠ "" →
        (disk .invalidation).current = none ∧ ∃ call, (disk .header).current = some ⟨call, value⟩) disk := by
    refine Script.Keeps.bind ⟨trivial, fun inspection _ => ?_⟩
    cases failed : fileCommitFailed inspection with
    | true => simp [CacheStep.outcome, failed, Script.Keeps]
    | false =>
      cases marker : (disk .invalidation).current with
      | some _ => simp [CacheStep.outcome, failed, marker, Script.Keeps]
      | none =>
        simp only [CacheStep.outcome, failed, marker]
        refine ⟨trivial, fun reading _ => ?_⟩
        cases broken : fileCommitFailed reading with
        | true => simp [CacheStep.outcome, broken, Script.Keeps]
        | false =>
          cases header : (disk .header).current with
          | none => simp [CacheStep.outcome, broken, header, Script.Keeps]
          | some content =>
            obtain ⟨call, text⟩ := content
            simp [CacheStep.outcome, broken, header, Script.Keeps]
  exact keeps.returns returned nonempty

inductive CacheEvent where
  | update (body headers : String) (fates : List FileCommitResult)
  | crash (survivor : CacheFile → Nat)

/-- The files of one path and the number of calls that have been made on it. A call whose fates run out is
cut off there. -/
structure CacheHistory where
  disk : CacheDisk := fun _ => {}
  calls : Nat := 0

def CacheHistory.step (history : CacheHistory) : CacheEvent → CacheHistory
  | .update body headers fates =>
    { disk := ((updateCacheFiles history.calls body headers).run CacheStep.outcome fates history.disk).2
      calls := history.calls + 1 }
  | .crash survivor => { history with disk := fun file => (history.disk file).crash (survivor file) }

theorem CacheHistory.step_paired {history : CacheHistory} (paired : Paired history.disk) (event : CacheEvent) :
    Paired (history.step event).disk := by
  cases event with
  | crash survivor => exact paired.crash survivor
  | update body headers fates =>
    have keeps := (updateCacheFiles_keeps paired history.calls body headers).run fates
    simp only [CacheHistory.step]
    split at keeps
    next ended => exact ended ▸ keeps.1
    next stopped => exact stopped ▸ keeps

theorem CacheHistory.run_paired (events : List CacheEvent) {history : CacheHistory} (paired : Paired history.disk) :
    Paired (events.foldl CacheHistory.step history).disk := by
  induction events generalizing history with
  | nil => exact paired
  | cons event rest ih => exact ih (step_paired paired event)

theorem cached_headers_belong_to_body (events : List CacheEvent) :
    let disk := (events.foldl CacheHistory.step {}).disk
    (∀ fates headers, (readCachedResponseHeaders.run CacheStep.outcome fates disk).1 = some headers →
        headers ≠ "" →
        ∃ call body, (disk .header).current = some ⟨call, headers⟩ ∧ (disk .body).current = some ⟨call, body⟩) ∧
      ∀ call body headers fates result,
        ((updateCacheFiles call body headers).run CacheStep.outcome fates disk).1 = some result →
        let final := ((updateCacheFiles call body headers).run CacheStep.outcome fates disk).2
        if result.bodyReplaced then (final .body).current = some ⟨call, body⟩ else final .body = disk .body := by
  intro disk
  have paired : Paired disk := CacheHistory.run_paired events fun _ _ _ _ header => by
    simp_all [Slot.possible, Matched]
  refine ⟨?_, ?_⟩
  · intro fates headers returned nonempty
    obtain ⟨absent, call, written⟩ := readCachedResponseHeaders_spec returned nonempty
    have matched := paired (List.mem_cons.mpr (.inl absent.symm)) _ List.mem_cons_self _ List.mem_cons_self _ written
      nonempty
    obtain ⟨⟨_, body⟩, here, rfl⟩ := Option.map_eq_some_iff.mp matched
    exact ⟨_, body, written, here⟩
  · intro call body headers fates result returned
    exact ((updateCacheFiles_keeps paired call body headers).returns returned).2

end SubConverter.Handler
