import Mathlib.Tactic

set_option autoImplicit false

namespace SubConverter

variable {ι α : Type}

-- For each variable, how many of its writes a thread knows of. It cannot read an older one any more.
abbrev View (ι : Type) := ι → Nat

structure AtomicWrite (ι α : Type) where
  value : α
  -- What the writing thread knew of, the write itself included.
  view : View ι

/-- A variable and the writes to it in their modification order, the latest first. A store goes to the end of that
order. -/
structure Atomic (ι α : Type) where
  initial : α
  writes : List (AtomicWrite ι α) := []

namespace Atomic

variable (x : Atomic ι α) (i : ι) (view : View ι) (age : Nat)

-- The value that `age` newer writes have overwritten.
def value : α := (x.writes[age]?.map AtomicWrite.value).getD x.initial

def latest : α := x.value 0

def released : View ι := (x.writes[age]?.map AtomicWrite.view).getD fun _ => 0

/-- An acquiring load: any write that the thread need not know to be overwritten, whose view it takes over. -/
def load : α × View ι :=
  let reached := min age (x.writes.length - view i)
  (x.value reached, view ⊔ x.released reached)

variable [DecidableEq ι]

/-- A releasing store. -/
def store (value : α) : Atomic ι α × View ι :=
  let seen := Function.update view i (x.writes.length + 1)
  ({ x with writes := ⟨value, seen⟩ :: x.writes }, seen)

/-- A strong exchange that acquires and releases. It meets the latest write, also where it fails. -/
def compareExchange [DecidableEq α] (expected desired : α) : Bool × Atomic ι α × View ι :=
  let seen := view ⊔ x.released 0
  if x.latest = expected then (true, x.store i seen desired) else (false, x, seen)

variable {x : Atomic ι α} {i : ι} {view : View ι} {value expected desired : α}

omit [DecidableEq ι] in
@[simp] theorem latest_initial : (⟨value, []⟩ : Atomic ι α).latest = value := rfl

omit [DecidableEq ι] in
theorem load_latest : (x.load i view 0).1 = x.latest := by simp [load, latest]

@[simp] theorem latest_store : (x.store i view value).1.latest = value := rfl

section Exchange

variable [DecidableEq α]

@[simp] theorem compareExchange_done :
    (x.compareExchange i view expected desired).1 = decide (x.latest = expected) := by
  unfold compareExchange
  split <;> simp_all

@[simp] theorem latest_compareExchange : (x.compareExchange i view expected desired).2.1.latest =
    if x.latest = expected then desired else x.latest := by
  unfold compareExchange
  split <;> simp

end Exchange

end Atomic

/-- A flag that starts lowered and is only ever raised. -/
structure Atomic.Flag (x : Atomic ι Bool) : Prop where
  initial : x.initial = false
  raised : ∀ write ∈ x.writes, write.value = true

namespace Atomic.Flag

variable {x : Atomic ι Bool} {i : ι} {view : View ι} {age : Nat}

theorem latest_of_load (flag : x.Flag) (read : (x.load i view age).1 = true) : x.latest = true := by
  cases found : x.writes with
  | nil => simp [load, value, found, flag.initial] at read
  | cons write rest =>
    have raised := flag.raised write (by simp [found])
    simpa [latest, value, found] using raised

variable [DecidableEq ι]

theorem store (flag : x.Flag) : (x.store i view true).1.Flag where
  initial := flag.initial
  raised write member := by
    rcases List.mem_cons.mp member with rfl | old
    · rfl
    · exact flag.raised write old

theorem compareExchange (flag : x.Flag) : (x.compareExchange i view false true).2.1.Flag := by
  unfold Atomic.compareExchange
  split
  · exact flag.store
  · exact flag

end Atomic.Flag

end SubConverter
