import SubConverter.Dashboard.FailureLimiter

set_option autoImplicit false

namespace SubConverter.Dashboard

abbrev Account := List Int

namespace Account

def Locked (limits : Limits) (account : Account) (now : Int) : Prop :=
  limits.maxFailures ≤ account.length ∧ now < account.headD 0 + seconds limits.lockSeconds

def InWindow (limits : Limits) (account : Account) (now : Int) : Prop :=
  account ≠ [] ∧ now - account.getLastD 0 ≤ seconds limits.windowSeconds

instance (limits : Limits) (account : Account) (now : Int) : Decidable (account.Locked limits now) :=
  inferInstanceAs (Decidable (_ ∧ _))

instance (limits : Limits) (account : Account) (now : Int) : Decidable (account.InWindow limits now) :=
  inferInstanceAs (Decidable (_ ∧ _))

def fail (limits : Limits) (account : Account) (now : Int) : Account :=
  if account.InWindow limits now then now :: account else [now]

def answer (limits : Limits) (account : Account) (credentialsValid : Bool) (now : Int) : Result :=
  if account.Locked limits now then .locked
  else if credentialsValid then .allowed
  else if limits.maxFailures ≤ (account.fail limits now).length then .locked
  else .unauthorized

def after (limits : Limits) (account : Account) (credentialsValid : Bool) (now : Int)
    (clearOnSuccess : Bool) : Account :=
  if account.Locked limits now then account
  else if credentialsValid then if clearOnSuccess then [] else account
  else account.fail limits now

def lockedUntil (limits : Limits) (account : Account) : Int :=
  if account ≠ [] ∧ limits.maxFailures ≤ account.length then account.headD 0 + seconds limits.lockSeconds else 0

theorem answer_allowed {limits : Limits} {account : Account} {credentialsValid : Bool} {now : Int}
    (allowed : account.answer limits credentialsValid now = .allowed) :
    credentialsValid ∧ ¬account.Locked limits now := by
  unfold answer at allowed
  split_ifs at allowed with locked valid
  exact ⟨valid, locked⟩

theorem answer_locked {limits : Limits} {account : Account} {now : Int} (credentialsValid : Bool)
    (locked : account.Locked limits now) : account.answer limits credentialsValid now = .locked :=
  if_pos locked

theorem answer_failed {limits : Limits} {account : Account} {now : Int} (unlocked : ¬account.Locked limits now) :
    account.answer limits false now = .locked ↔ limits.maxFailures ≤ (account.fail limits now).length := by
  rw [answer, if_neg unlocked, if_neg Bool.false_ne_true]
  split_ifs with full <;> simp [full]

theorem answer_relocked {limits : Limits} {account : Account} {now : Int} (inside : account.InWindow limits now)
    (full : limits.maxFailures ≤ account.length) : account.answer limits false now = .locked := by
  by_cases locked : account.Locked limits now
  · exact answer_locked false locked
  · rw [answer_failed locked, fail, if_pos inside, List.length_cons]
    omega

theorem lockedUntil_fail (limits : Limits) (account : Account) (now : Int) :
    (account.fail limits now).lockedUntil limits =
      if limits.maxFailures ≤ (account.fail limits now).length then now + seconds limits.lockSeconds else 0 := by
  unfold lockedUntil fail
  split <;> simp

end Account

def FailureState.Follows (limits : Limits) (now : Int) (state : FailureState) (account : Account) : Prop :=
  (∀ check ∈ account, 0 < check) ∧
    (state = ⟨account.length, account.getLastD 0, account.lockedUntil limits⟩ ∨
      state = {} ∧ ¬account.InWindow limits now ∧ ¬account.Locked limits now)

namespace FailureState

variable {limits : Limits} {state : FailureState} {account : Account} {earlier now : Int}

theorem Follows.later (follows : state.Follows limits earlier account) (order : earlier ≤ now) :
    state.Follows limits now account := by
  refine ⟨follows.1, follows.2.imp_right fun ⟨fresh, closed, unlocked⟩ => ⟨fresh, ?_, ?_⟩⟩
  · rintro ⟨nonempty, inside⟩
    exact closed ⟨nonempty, by omega⟩
  · rintro ⟨full, running⟩
    exact unlocked ⟨full, by omega⟩

theorem follows_empty : FailureState.Follows limits now {} [] := by
  refine ⟨by simp, .inl ?_⟩
  simp [Account.lockedUntil]

theorem Follows.expired (follows : state.Follows limits now account)
    (expired : state.expired now limits.windowSeconds) : FailureState.Follows limits now {} account := by
  refine ⟨follows.1, .inr ⟨rfl, ?_⟩⟩
  rcases follows.2 with tracks | ⟨-, idle⟩
  · subst tracks
    simp only [FailureState.expired, Bool.and_eq_true, decide_eq_true_eq, bne_iff_ne, ne_eq] at expired
    refine ⟨fun inside => ?_, fun locked => ?_⟩
    · have := inside.2
      omega
    · have nonempty : account ≠ [] := by
        rintro rfl
        exact expired.1.2 rfl
      have unlocked := expired.1.1
      rw [Account.lockedUntil, if_pos ⟨nonempty, locked.1⟩] at unlocked
      exact absurd locked.2 (by omega)
  · exact idle

theorem Follows.locked_iff (follows : state.Follows limits now account) (positive : 0 < now)
    (atLeastOne : 1 ≤ limits.maxFailures) : now < state.lockedUntil ↔ account.Locked limits now := by
  rcases follows.2 with tracks | ⟨fresh, -, unlocked⟩
  · subst tracks
    by_cases full : account ≠ [] ∧ limits.maxFailures ≤ account.length
    · simp [Account.lockedUntil, full, Account.Locked]
    · have short : ¬limits.maxFailures ≤ account.length := by
        intro long
        have nonempty : account ≠ [] := by
          rintro rfl
          simp at long
          omega
        exact full ⟨nonempty, long⟩
      simp [Account.lockedUntil, Account.Locked, short]
      omega
  · subst fresh
    simp only [unlocked, iff_false]
    omega

theorem Follows.failed (follows : state.Follows limits now account) :
    (state.failed limits now).failures = (account.fail limits now).length ∧
      (state.failed limits now).windowStart = (account.fail limits now).getLastD 0 ∧
      (¬limits.maxFailures ≤ (account.fail limits now).length → (state.failed limits now).lockedUntil = 0) := by
  unfold FailureState.failed Account.fail
  by_cases inside : account.InWindow limits now
  · have tracks : state = ⟨account.length, account.getLastD 0, account.lockedUntil limits⟩ :=
      follows.2.resolve_right fun spent => spent.2.1 inside
    have opened : 0 < account.getLastD 0 := by
      rw [List.getLastD_eq_getLast?, List.getLast?_eq_some_getLast inside.1]
      exact follows.1 _ (List.getLast_mem inside.1)
    have kept : ¬(account.getLastD 0 = 0 ∨ now - account.getLastD 0 > seconds limits.windowSeconds) := by
      have := inside.2
      omega
    rw [tracks, if_neg kept, if_pos inside]
    refine ⟨by simp, ?_, fun short => ?_⟩
    · rw [List.getLastD_cons, List.getLastD_eq_getLast?, List.getLastD_eq_getLast?,
        List.getLast?_eq_some_getLast inside.1]
      rfl
    · have shorter : ¬limits.maxFailures ≤ account.length := by
        simp only [List.length_cons] at short
        omega
      simp [Account.lockedUntil, shorter]
  · have reset : state.windowStart = 0 ∨ now - state.windowStart > seconds limits.windowSeconds := by
      rcases follows.2 with tracks | ⟨fresh, -, -⟩
      · rw [tracks]
        by_cases empty : account = []
        · exact .inl (by simp [empty])
        · exact .inr (not_le.mp fun within => inside ⟨empty, within⟩)
      · exact .inl (by rw [fresh])
    rw [if_pos reset, if_neg inside]
    simp

theorem fail_positive (positive : 0 < now) (checks : ∀ check ∈ account, 0 < check) :
    ∀ check ∈ account.fail limits now, 0 < check := by
  unfold Account.fail
  split <;> simp_all

theorem Follows.evaluateState (follows : state.Follows limits now account) (positive : 0 < now)
    (atLeastOne : 1 ≤ limits.maxFailures) (credentialsValid clearOnSuccess : Bool) :
    (state.evaluateState credentialsValid limits now clearOnSuccess).1.result =
        account.answer limits credentialsValid now ∧
      FailureState.Follows limits now
        (if (state.evaluateState credentialsValid limits now clearOnSuccess).2.2 then {}
          else (state.evaluateState credentialsValid limits now clearOnSuccess).2.1)
        (account.after limits credentialsValid now clearOnSuccess) := by
  have lock := follows.locked_iff positive atLeastOne
  unfold FailureState.evaluateState Account.answer Account.after
  by_cases locked : account.Locked limits now
  · rw [if_pos (lock.mpr locked), if_pos locked, if_pos locked]
    exact ⟨rfl, follows⟩
  rw [if_neg (mt lock.mp locked), if_neg locked, if_neg locked]
  cases credentialsValid with
  | true =>
    cases clearOnSuccess with
    | true => exact ⟨rfl, follows_empty⟩
    | false => exact ⟨rfl, follows⟩
  | false =>
    obtain ⟨count, start, unlocked⟩ := follows.failed
    have lockTime := account.lockedUntil_fail limits now
    simp only [Bool.false_eq_true, if_false, ge_iff_le, count]
    by_cases full : limits.maxFailures ≤ (account.fail limits now).length
    · rw [if_pos full] at lockTime
      simp only [full, if_true]
      exact ⟨trivial, fail_positive positive follows.1, .inl (FailureState.ext rfl start lockTime.symm)⟩
    · rw [if_neg full] at lockTime
      simp only [full, if_false]
      exact ⟨trivial, fail_positive positive follows.1,
        .inl (FailureState.ext count start ((unlocked full).trans lockTime.symm))⟩

theorem evaluateState_allowed {credentialsValid clearOnSuccess : Bool}
    (allowed : (state.evaluateState credentialsValid limits now clearOnSuccess).1.result = .allowed) :
    (state.evaluateState credentialsValid limits now clearOnSuccess).2.1 = state := by
  revert allowed
  unfold FailureState.evaluateState
  split_ifs
  · simp
  · simp
  · dsimp only
    split_ifs <;> simp

theorem kept_of_invalid (state : FailureState) (limits : Limits) (now : Int) (clearOnSuccess : Bool) :
    (state.evaluateState false limits now clearOnSuccess).2.2 = false := by
  simp only [FailureState.evaluateState, Bool.false_eq_true, if_false]
  split_ifs <;> rfl

theorem kept_of_uncleared (state : FailureState) (limits : Limits) (now : Int) (credentialsValid : Bool) :
    (state.evaluateState credentialsValid limits now false).2.2 = false := by
  cases credentialsValid with
  | false => exact state.kept_of_invalid limits now false
  | true =>
    simp only [FailureState.evaluateState, if_true]
    split_ifs <;> rfl

end FailureState

inductive Bucket (Address : Type) where
  | own (key : Address)
  | overflow
  deriving DecidableEq

def Bucket.cleared {Address : Type} : Bucket Address → Bool
  | .own _ => true
  | .overflow => false

namespace FailureLimiter

variable {Address : Type}

theorem size_cleanup_le (limiter : FailureLimiter Address) (now windowSeconds : Int) :
    (limiter.cleanup now windowSeconds).size ≤ limiter.size :=
  List.length_filter_le _ _

theorem capacity_prepared (limiter : FailureLimiter Address) (limits : Limits) (now : Int) :
    (limiter.prepared limits now).capacity = limiter.capacity := by
  unfold prepared
  split <;> rfl

theorem size_prepared_le (limiter : FailureLimiter Address) (limits : Limits) (now : Int) :
    (limiter.prepared limits now).size ≤ limiter.size := by
  unfold prepared
  split
  · exact limiter.size_cleanup_le now limits.windowSeconds
  · exact le_refl _

variable [DecidableEq Address]

def stateOf (limiter : FailureLimiter Address) : Bucket Address → FailureState
  | .own key => (limiter.failures.lookup key).getD {}
  | .overflow => if limiter.overflowActive then limiter.overflow else {}

-- The bucket that counts the failures of this client.
def bucketFor (limiter : FailureLimiter Address) (key : Address) : Bucket Address :=
  if (limiter.failures.lookup key).isSome ∨ limiter.size < limiter.capacity then .own key else .overflow

theorem lookup_cleanup (limiter : FailureLimiter Address) (now windowSeconds : Int) (key : Address) :
    (limiter.cleanup now windowSeconds).failures.lookup key =
      (limiter.failures.lookup key).filter fun state => !state.expired now windowSeconds := by
  ext state
  rw [← Option.mem_def, AList.mem_lookup_iff, ← Option.mem_def, Option.mem_filter_iff, AList.mem_lookup_iff]
  simp [cleanup]

theorem stateOf_cleanup (limiter : FailureLimiter Address) (now windowSeconds : Int) (bucket : Bucket Address) :
    (limiter.cleanup now windowSeconds).stateOf bucket = limiter.stateOf bucket ∨
      (limiter.stateOf bucket).expired now windowSeconds ∧
        (limiter.cleanup now windowSeconds).stateOf bucket = {} := by
  cases bucket with
  | own key =>
    simp only [stateOf, lookup_cleanup]
    cases found : limiter.failures.lookup key with
    | none => simp
    | some state => cases spent : state.expired now windowSeconds <;> simp [Option.filter, spent]
  | overflow =>
    simp only [stateOf, cleanup]
    by_cases active : limiter.overflowActive
    · by_cases spent : limiter.overflow.expired now windowSeconds <;> simp [active, spent]
    · simp [active]

theorem stateOf_prepared (limiter : FailureLimiter Address) (limits : Limits) (now : Int)
    (bucket : Bucket Address) :
    (limiter.prepared limits now).stateOf bucket = limiter.stateOf bucket ∨
      (limiter.stateOf bucket).expired now limits.windowSeconds ∧
        (limiter.prepared limits now).stateOf bucket = {} := by
  unfold prepared
  split
  · exact limiter.stateOf_cleanup now limits.windowSeconds bucket
  · exact .inl rfl

theorem stateOf_erase (limiter : FailureLimiter Address) (key : Address) (bucket : Bucket Address) :
    { limiter with failures := limiter.failures.erase key }.stateOf bucket =
      if bucket = .own key then {} else limiter.stateOf bucket := by
  cases bucket with
  | own other =>
    by_cases same : other = key
    · subst same
      simp [stateOf]
    · simp [stateOf, same, AList.lookup_erase_ne same]
  | overflow => simp [stateOf]

theorem stateOf_insert (limiter : FailureLimiter Address) (key : Address) (state : FailureState)
    (bucket : Bucket Address) :
    { limiter with failures := limiter.failures.insert key state }.stateOf bucket =
      if bucket = .own key then state else limiter.stateOf bucket := by
  cases bucket with
  | own other =>
    by_cases same : other = key
    · subst same
      simp [stateOf]
    · simp [stateOf, same, AList.lookup_insert_ne same]
  | overflow => simp [stateOf]

theorem stateOf_overflow (limiter : FailureLimiter Address) (state : FailureState) (bucket : Bucket Address) :
    { limiter with overflow := state, overflowActive := true }.stateOf bucket =
      if bucket = .overflow then state else limiter.stateOf bucket := by
  cases bucket <;> simp [stateOf]

theorem judge_spec (limiter : FailureLimiter Address) (key : Address) (credentialsValid : Bool) (limits : Limits)
    {now : Int} (positive : 0 < now) :
    let bucket := limiter.bucketFor key
    let outcome := (limiter.stateOf bucket).evaluateState credentialsValid limits now bucket.cleared
    (limiter.judge key credentialsValid limits now).1 = outcome.1 ∧
      ∀ other, (limiter.judge key credentialsValid limits now).2.stateOf other =
        if other = bucket then if outcome.2.2 then {} else outcome.2.1 else limiter.stateOf other := by
  dsimp only
  unfold judge
  cases found : limiter.failures.lookup key with
  | some state =>
    have bucket : limiter.bucketFor key = .own key := by simp [bucketFor, found]
    have here : limiter.stateOf (.own key) = state := by simp [stateOf, found]
    simp only [bucket, here, Bucket.cleared]
    split
    next =>
      refine ⟨rfl, fun other => ?_⟩
      rw [stateOf_erase]
    next =>
      refine ⟨rfl, fun other => ?_⟩
      rw [stateOf_insert]
  | none =>
    have here : limiter.stateOf (.own key) = {} := by simp [stateOf, found]
    by_cases room : limiter.size < limiter.capacity
    · have bucket : limiter.bucketFor key = .own key := by simp [bucketFor, room]
      simp only [bucket, here, Bucket.cleared, if_pos room]
      cases credentialsValid with
      | true =>
        have fresh : FailureState.evaluateState {} true limits now true = (⟨.allowed, 0⟩, {}, true) := by
          simp [FailureState.evaluateState, not_lt_of_gt positive]
        rw [fresh]
        refine ⟨rfl, fun other => ?_⟩
        by_cases same : other = .own key
        · simp [same, here]
        · simp [same]
      | false =>
        refine ⟨rfl, fun other => ?_⟩
        rw [FailureState.kept_of_invalid]
        exact limiter.stateOf_insert key _ other
    · have bucket : limiter.bucketFor key = .overflow := by simp [bucketFor, room, found]
      simp only [bucket, Bucket.cleared, if_neg room]
      refine ⟨rfl, fun other => ?_⟩
      rw [FailureState.kept_of_uncleared]
      exact limiter.stateOf_overflow _ other

omit [DecidableEq Address] in
theorem length_keys (failures : Failures Address) : failures.entries.length = failures.keys.length := by
  simp [AList.keys, List.keys]

theorem size_judge (limiter : FailureLimiter Address) (key : Address) (credentialsValid : Bool) (limits : Limits)
    (now : Int) (bounded : limiter.size ≤ limiter.capacity) :
    (limiter.judge key credentialsValid limits now).2.capacity = limiter.capacity ∧
      (limiter.judge key credentialsValid limits now).2.size ≤ limiter.capacity := by
  unfold judge
  cases found : limiter.failures.lookup key with
  | some state =>
    have member : key ∈ limiter.failures := AList.lookup_isSome.mp (by simp [found])
    dsimp only
    split
    · refine ⟨rfl, le_trans ?_ bounded⟩
      rw [size, size, length_keys, length_keys, AList.keys_erase]
      exact List.length_erase_le
    · refine ⟨rfl, le_trans (le_of_eq ?_) bounded⟩
      rw [size, size, length_keys, length_keys, AList.keys_insert, List.length_cons,
        List.length_erase_of_mem (AList.mem_keys.mp member)]
      exact Nat.sub_add_cancel (List.length_pos_of_mem (AList.mem_keys.mp member))
  | none =>
    have fresh : key ∉ limiter.failures := AList.lookup_eq_none.mp found
    dsimp only
    split
    next room =>
      split
      · exact ⟨rfl, bounded⟩
      · refine ⟨rfl, ?_⟩
        simp only [size, AList.entries_insert_of_notMem fresh, List.length_cons]
        exact room
    next => exact ⟨rfl, bounded⟩

end FailureLimiter

structure Attempt (Address : Type) where
  key : Address
  credentialsValid : Bool
  now : Int

structure Record (Address : Type) extends Attempt Address where
  bucket : Bucket Address
  decision : Decision

section Run

variable {Address : Type} [DecidableEq Address]

namespace FailureLimiter

def attempt (limiter : FailureLimiter Address) (limits : Limits) (call : Attempt Address) :
    Record Address × FailureLimiter Address :=
  let (decision, next) := limiter.evaluate call.key call.credentialsValid limits call.now
  ({ call with bucket := (limiter.prepared limits.clamped call.now).bucketFor call.key, decision }, next)

def run (limiter : FailureLimiter Address) (limits : Limits) :
    List (Attempt Address) → List (Record Address) × FailureLimiter Address
  | [] => ([], limiter)
  | call :: rest =>
    let (record, next) := limiter.attempt limits call
    let (log, final) := next.run limits rest
    (record :: log, final)

end FailureLimiter

def accountsAfter (limits : Limits) (accounts : Bucket Address → Account) (record : Record Address) :
    Bucket Address → Account :=
  Function.update accounts record.bucket
    ((accounts record.bucket).after limits record.credentialsValid record.now record.bucket.cleared)

-- What each bucket has to answer for after these calls.
def accountsOf (limits : Limits) (log : List (Record Address)) : Bucket Address → Account :=
  log.foldl (accountsAfter limits) fun _ => []

namespace FailureLimiter

structure Sound (capacity : Nat) (limits : Limits) (limiter : FailureLimiter Address)
    (accounts : Bucket Address → Account) (now : Int) : Prop where
  follows : ∀ bucket, (limiter.stateOf bucket).Follows limits now (accounts bucket)
  capacity : limiter.capacity = capacity
  bounded : limiter.size ≤ limiter.capacity

variable {capacity : Nat} {limiter : FailureLimiter Address} {limits : Limits}
  {accounts : Bucket Address → Account} {earlier : Int}

theorem Sound.start (capacity : Nat) :
    Sound capacity limits { capacity : FailureLimiter Address } (fun _ => []) earlier where
  follows bucket := by
    cases bucket <;> exact FailureState.follows_empty
  capacity := rfl
  bounded := Nat.zero_le _

theorem Sound.prepared (sound : Sound capacity limits limiter accounts earlier) {now : Int}
    (order : earlier ≤ now) : Sound capacity limits (limiter.prepared limits now) accounts now where
  follows bucket := by
    have current := (sound.follows bucket).later order
    rcases limiter.stateOf_prepared limits now bucket with same | ⟨spent, reset⟩
    · rw [same]
      exact current
    · rw [reset]
      exact current.expired spent
  capacity := (limiter.capacity_prepared limits now).trans sound.capacity
  bounded := by
    rw [capacity_prepared]
    exact (limiter.size_prepared_le limits now).trans sound.bounded

theorem Sound.attempt (sound : Sound capacity limits.clamped limiter accounts earlier) (call : Attempt Address)
    (order : earlier ≤ call.now) (positive : 0 < call.now) :
    (limiter.attempt limits call).1.decision.result =
        (accounts (limiter.attempt limits call).1.bucket).answer limits.clamped call.credentialsValid call.now ∧
      Sound capacity limits.clamped (limiter.attempt limits call).2
        (accountsAfter limits.clamped accounts (limiter.attempt limits call).1) call.now := by
  have ready := sound.prepared order
  have atLeastOne : 1 ≤ limits.clamped.maxFailures := le_max_left 1 limits.maxFailures
  obtain ⟨decision, states⟩ := (limiter.prepared limits.clamped call.now).judge_spec call.key
    call.credentialsValid limits.clamped positive
  obtain ⟨answered, follows⟩ :=
    (ready.follows ((limiter.prepared limits.clamped call.now).bucketFor call.key)).evaluateState positive
      atLeastOne call.credentialsValid ((limiter.prepared limits.clamped call.now).bucketFor call.key).cleared
  have sizes := (limiter.prepared limits.clamped call.now).size_judge call.key call.credentialsValid
    limits.clamped call.now ready.bounded
  refine ⟨?_, ?_, ?_, ?_⟩
  · exact (congrArg Decision.result decision).trans answered
  · intro bucket
    unfold accountsAfter FailureLimiter.attempt FailureLimiter.evaluate
    dsimp only
    rw [states bucket]
    by_cases same : bucket = (limiter.prepared limits.clamped call.now).bucketFor call.key
    · subst same
      rw [if_pos rfl, Function.update_self]
      exact follows
    · rw [if_neg same, Function.update_of_ne same]
      exact ready.follows bucket
  · exact sizes.1.trans ready.capacity
  · exact sizes.2.trans (le_of_eq sizes.1.symm)

theorem Sound.run (sound : Sound capacity limits.clamped limiter accounts earlier) (calls : List (Attempt Address))
    (ordered : calls.Pairwise (·.now ≤ ·.now)) (after : ∀ call ∈ calls, earlier ≤ call.now ∧ 0 < call.now) :
    ∃ latest, (latest = earlier ∨ ∃ call ∈ calls, latest = call.now) ∧
      Sound capacity limits.clamped (limiter.run limits calls).2
        ((limiter.run limits calls).1.foldl (accountsAfter limits.clamped) accounts) latest := by
  induction calls generalizing limiter accounts earlier with
  | nil => exact ⟨earlier, .inl rfl, sound⟩
  | cons call rest ih =>
    obtain ⟨first, others⟩ := List.pairwise_cons.mp ordered
    obtain ⟨order, positive⟩ := after call (by simp)
    obtain ⟨latest, origin, final⟩ := ih (sound.attempt call order positive).2 others fun later member =>
      ⟨first later member, (after later (by simp [member])).2⟩
    refine ⟨latest, .inr ?_, final⟩
    rcases origin with rfl | ⟨later, member, rfl⟩
    · exact ⟨call, by simp, rfl⟩
    · exact ⟨later, by simp [member], rfl⟩

theorem lookup_prepared (limiter : FailureLimiter Address) (limits : Limits) {now : Int} {key : Address}
    {state : FailureState} (found : limiter.failures.lookup key = some state) (running : now < state.lockedUntil) :
    (limiter.prepared limits now).failures.lookup key = some state := by
  unfold FailureLimiter.prepared
  split
  · have unexpired : state.expired now limits.windowSeconds = false := by
      simp [FailureState.expired, not_le_of_gt running]
    rw [lookup_cleanup, found]
    simp [Option.filter, unexpired]
  · exact found

theorem bucketFor_cases (limiter : FailureLimiter Address) (key : Address)
    (bounded : limiter.size ≤ limiter.capacity) :
    limiter.bucketFor key = .own key ∨
      limiter.bucketFor key = .overflow ∧ limiter.failures.lookup key = none ∧ limiter.size = limiter.capacity := by
  unfold bucketFor
  split_ifs with placed
  · exact .inl rfl
  · simp only [not_or, Bool.not_eq_true, Option.isSome_eq_false_iff, Option.isNone_iff_eq_none] at placed
    exact .inr ⟨rfl, placed.1, by omega⟩

theorem judge_allowed (limiter : FailureLimiter Address) (key : Address) (credentialsValid : Bool)
    (limits : Limits) {now : Int} (positive : 0 < now)
    (allowed : (limiter.judge key credentialsValid limits now).1.result = .allowed) {other : Bucket Address}
    (foreign : other ≠ .own key) :
    (limiter.judge key credentialsValid limits now).2.stateOf other = limiter.stateOf other := by
  obtain ⟨decision, states⟩ := limiter.judge_spec key credentialsValid limits positive
  rw [states other]
  by_cases same : other = limiter.bucketFor key
  · -- Only the overflow bucket is left, and a success does not clear it.
    have overflow : limiter.bucketFor key = .overflow := by
      unfold bucketFor at same ⊢
      split_ifs at same ⊢
      · exact absurd same foreign
      · rfl
    rw [decision] at allowed
    rw [overflow] at same allowed ⊢
    rw [if_pos same, same, Bucket.cleared, FailureState.kept_of_uncleared]
    exact FailureState.evaluateState_allowed allowed
  · rw [if_neg same]

theorem lockout_enforced (capacity : Nat) (limits : Limits) (calls : List (Attempt Address))
    (call : Attempt Address) (ordered : (calls ++ [call]).Pairwise (·.now ≤ ·.now))
    (started : ∀ earlier ∈ calls ++ [call], 0 < earlier.now) :
    let log := (run { capacity } limits calls).1
    let limiter := (run { capacity } limits calls).2
    let ready := limiter.prepared limits.clamped call.now
    let record := (limiter.attempt limits call).1
    let next := (limiter.attempt limits call).2
    let account := accountsOf limits.clamped log record.bucket
    (record.decision.result = .allowed → call.credentialsValid ∧ ¬account.Locked limits.clamped call.now) ∧
      (account.Locked limits.clamped call.now → record.decision.result = .locked) ∧
      (call.credentialsValid = false → ¬account.Locked limits.clamped call.now →
        (record.decision.result = .locked ↔
          limits.clamped.maxFailures ≤ (account.fail limits.clamped call.now).length)) ∧
      (call.credentialsValid = false → account.InWindow limits.clamped call.now →
        limits.clamped.maxFailures ≤ account.length → record.decision.result = .locked) ∧
      (∀ key state, limiter.failures.lookup key = some state → call.now < state.lockedUntil →
        ready.failures.lookup key = some state) ∧
      (record.decision.result = .allowed → ∀ other, other ≠ .own call.key →
        next.stateOf other = ready.stateOf other) ∧
      (record.bucket = .own call.key ∨
        record.bucket = .overflow ∧ ready.failures.lookup call.key = none ∧ ready.size = capacity) ∧
      next.size ≤ capacity := by
  intro log limiter ready record next account
  obtain ⟨orderedCalls, -, after⟩ := List.pairwise_append.mp ordered
  have positive : 0 < call.now := started call (by simp)
  have start : Sound capacity limits.clamped ({ capacity } : FailureLimiter Address) (fun _ => []) 0 :=
    Sound.start capacity
  obtain ⟨latest, origin, sound⟩ := start.run calls orderedCalls fun earlier member => by
    have := started earlier (by simp [member])
    omega
  have order : latest ≤ call.now := by
    rcases origin with rfl | ⟨earlier, member, rfl⟩
    · omega
    · exact after earlier member call (by simp)
  obtain ⟨answered, final⟩ := sound.attempt call order positive
  have prepared := sound.prepared order
  refine ⟨?_, ?_, ?_, ?_, ?_, ?_, ?_, ?_⟩
  · intro allowed
    exact Account.answer_allowed (answered.symm.trans allowed)
  · intro locked
    exact answered.trans (Account.answer_locked _ locked)
  · intro invalid unlocked
    rw [invalid] at answered
    rw [answered]
    exact Account.answer_failed unlocked
  · intro invalid inside full
    rw [invalid] at answered
    exact answered.trans (Account.answer_relocked inside full)
  · intro key state found running
    exact limiter.lookup_prepared limits.clamped found running
  · intro allowed other foreign
    exact ready.judge_allowed call.key call.credentialsValid limits.clamped positive allowed foreign
  · have cases := ready.bucketFor_cases call.key prepared.bounded
    rw [prepared.capacity] at cases
    exact cases
  · exact final.bounded.trans (le_of_eq final.capacity)

def movedCalls : List (Attempt Nat) :=
  [⟨1, false, seconds 1⟩, ⟨2, false, seconds 20⟩, ⟨2, false, seconds 32⟩, ⟨2, false, seconds 33⟩]

def movedCall : Attempt Nat := ⟨2, true, seconds 34⟩

theorem lockout_enforced_moved :
    (movedCalls ++ [movedCall]).Pairwise (fun earlier later => earlier.now ≤ later.now) ∧
      ((run { capacity := 1 } ⟨2, 30, 60⟩ movedCalls).2.attempt ⟨2, 30, 60⟩ movedCall).1.decision.result =
        .locked := by
  have ordered : (movedCalls ++ [movedCall]).Pairwise (fun earlier later => earlier.now ≤ later.now) := by decide
  have locked := (lockout_enforced 1 ⟨2, 30, 60⟩ movedCalls movedCall ordered (by decide)).2.1
  exact ⟨ordered, locked (by decide)⟩

theorem lockout_counterexample :
    (((run { capacity := 1 } ⟨2, 30, 60⟩ movedCalls).1.filter (·.key = 2)).map
        fun record => (record.now, record.decision.result)) =
        [(seconds 20, .unauthorized), (seconds 32, .unauthorized), (seconds 33, .locked)] ∧
      seconds 33 - seconds 20 ≤ seconds 30 ∧
      ((run { capacity := 1 } ⟨2, 30, 60⟩ (List.replicate 5 (Attempt.mk 1 false 0))).1.map fun record : Record Nat =>
        record.decision.result) = List.replicate 5 .unauthorized := by
  decide

end FailureLimiter

end Run

end SubConverter.Dashboard
