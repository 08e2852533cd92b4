import Mathlib.Data.List.AList
import Mathlib.Tactic

set_option autoImplicit false

namespace SubConverter.Dashboard

-- Time points are nanoseconds of the steady clock. The default constructed one, `0`, stands for "never".
def seconds (count : Int) : Int := count * 1000000000

inductive Result where
  | allowed
  | unauthorized
  | locked
  deriving DecidableEq, Repr

structure Decision where
  result : Result := .unauthorized
  retryAfterSeconds : Int := 0
  deriving DecidableEq, Repr

@[ext]
structure FailureState where
  failures : Int := 0
  windowStart : Int := 0
  lockedUntil : Int := 0
  deriving DecidableEq, Repr

structure Limits where
  maxFailures : Int
  windowSeconds : Int
  lockSeconds : Int
  deriving DecidableEq, Repr

def Limits.clamped (limits : Limits) : Limits where
  maxFailures := max 1 limits.maxFailures
  windowSeconds := max 1 limits.windowSeconds
  lockSeconds := max 1 limits.lockSeconds

namespace FailureState

def expired (state : FailureState) (now : Int) (windowSeconds : Int) : Bool :=
  state.lockedUntil ≤ now && state.windowStart != 0 && now - state.windowStart > seconds windowSeconds

-- A failed check opens a new window when there is none or the last one is over, and is then counted in it.
def failed (state : FailureState) (limits : Limits) (now : Int) : FailureState :=
  let state :=
    if state.windowStart = 0 ∨ now - state.windowStart > seconds limits.windowSeconds then
      { windowStart := now : FailureState }
    else state
  { state with failures := state.failures + 1 }

def evaluateState (state : FailureState) (credentialsValid : Bool) (limits : Limits) (now : Int)
    (clearOnSuccess : Bool) : Decision × FailureState × Bool :=
  if state.lockedUntil > now then
    (⟨.locked, max 1 (Int.tdiv (state.lockedUntil - now) 1000000000)⟩, state, false)
  else if credentialsValid then
    (⟨.allowed, 0⟩, state, clearOnSuccess)
  else
    let state := state.failed limits now
    if state.failures ≥ limits.maxFailures then
      (⟨.locked, limits.lockSeconds⟩, { state with lockedUntil := now + seconds limits.lockSeconds }, false)
    else (⟨.unauthorized, 0⟩, state, false)

end FailureState

abbrev Failures (Address : Type) := AList fun _ : Address => FailureState

structure FailureLimiter (Address : Type) where
  capacity : Nat
  failures : Failures Address := ∅
  overflow : FailureState := {}
  overflowActive : Bool := false
  nextCleanup : Int := 0

namespace FailureLimiter

variable {Address : Type}

def size (limiter : FailureLimiter Address) : Nat := limiter.failures.entries.length

def cleanup (limiter : FailureLimiter Address) (now : Int) (windowSeconds : Int) :
    FailureLimiter Address :=
  let overflowExpired := limiter.overflowActive && limiter.overflow.expired now windowSeconds
  { limiter with
    failures :=
      { entries := limiter.failures.entries.filter fun entry => !entry.2.expired now windowSeconds
        nodupKeys := limiter.failures.nodupKeys.sublist List.filter_sublist }
    overflow := if overflowExpired then {} else limiter.overflow
    overflowActive := limiter.overflowActive && !overflowExpired
    nextCleanup := now + seconds 45 }

variable [DecidableEq Address]

-- The clean-up that a call makes before it looks at its client.
def prepared (limiter : FailureLimiter Address) (limits : Limits) (now : Int) : FailureLimiter Address :=
  if limiter.nextCleanup = 0 ∨ now ≥ limiter.nextCleanup ∨ limiter.size ≥ limiter.capacity then
    limiter.cleanup now limits.windowSeconds
  else limiter

/-- The part of `evaluate` after the limits are clamped and the table is cleaned. -/
def judge (limiter : FailureLimiter Address) (key : Address) (credentialsValid : Bool) (limits : Limits)
    (now : Int) : Decision × FailureLimiter Address :=
  match limiter.failures.lookup key with
  | some state =>
    let (decision, state, erase) := state.evaluateState credentialsValid limits now true
    if erase then (decision, { limiter with failures := limiter.failures.erase key })
    else (decision, { limiter with failures := limiter.failures.insert key state })
  | none =>
    if limiter.size < limiter.capacity then
      if credentialsValid then (⟨.allowed, 0⟩, limiter)
      else
        let (decision, state, _) := FailureState.evaluateState {} false limits now true
        (decision, { limiter with failures := limiter.failures.insert key state })
    else
      let overflow := if limiter.overflowActive then limiter.overflow else {}
      let (decision, overflow, _) := overflow.evaluateState credentialsValid limits now false
      (decision, { limiter with overflow, overflowActive := true })

def evaluate (limiter : FailureLimiter Address) (key : Address) (credentialsValid : Bool) (limits : Limits)
    (now : Int) : Decision × FailureLimiter Address :=
  (limiter.prepared limits.clamped now).judge key credentialsValid limits.clamped now

end FailureLimiter

end SubConverter.Dashboard
