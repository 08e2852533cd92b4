import SubConverter.Lib.Wire

set_option autoImplicit false

namespace SubConverter.Fs

open Wire (Bytes)

inductive Update where
  | append (bytes : Bytes)
  | resize (size : Nat)
deriving DecidableEq, Repr

def Update.apply (content : Bytes) : Update → Bytes
  | .append bytes => content ++ bytes
  | .resize size => content.take size ++ List.replicate (size - content.length) 0

structure File where
  stable : Bytes := []
  pending : List Update := []
deriving DecidableEq, Repr

def File.content (file : File) : Bytes := file.pending.foldl Update.apply file.stable

def File.update (file : File) (change : Update) : File := { file with pending := file.pending ++ [change] }

def File.synced (file : File) : File := { stable := file.content }

abbrev Disk (ν : Type) := ν → Option File

inductive Op (ν : Type) where
  | openTruncate (name : ν)
  | openAppend (name : ν)
  | append (name : ν) (bytes : Bytes)
  | sync (name : ν)
  | close (name : ν)
  | resize (name : ν) (size : Nat)
  | rename (source target : ν)
  | remove (name : ν)
  | syncDirectory
deriving DecidableEq, Repr

-- A failed append may still have written some of its bytes.
inductive Fault where
  | none
  | fails (written : Nat)
deriving DecidableEq, Repr

section Disk

variable {ν : Type} [DecidableEq ν]

def Disk.set (disk : Disk ν) (name : ν) (file : Option File) : Disk ν :=
  fun other => if other = name then file else disk other

def Disk.content (disk : Disk ν) (name : ν) : Option Bytes := (disk name).map File.content

-- A name that is not in the directory cannot be written, renamed or synced.
def Disk.change (disk : Disk ν) (name : ν) (f : File → File) : Bool × Disk ν :=
  match disk name with
  | none => (false, disk)
  | some file => (true, disk.set name (some (f file)))

def Op.perform (op : Op ν) (disk : Disk ν) : Bool × Disk ν :=
  match op with
  | .openTruncate name => (true, disk.set name (some (((disk name).getD {}).update (.resize 0))))
  | .openAppend name => (true, disk.set name (some ((disk name).getD {})))
  | .append name bytes => disk.change name (·.update (.append bytes))
  | .sync name => disk.change name File.synced
  | .close _ => (true, disk)
  | .resize name size => disk.change name (·.update (.resize size))
  | .rename source target =>
    match disk source with
    | none => (false, disk)
    | some file => (true, (disk.set source none).set target (some file))
  | .remove name => (true, disk.set name none)
  | .syncDirectory => (true, disk)

def Op.fail (op : Op ν) (written : Nat) (disk : Disk ν) : Disk ν :=
  match op with
  | .append name bytes => (disk.change name (·.update (.append (bytes.take written)))).2
  | _ => disk

def Op.outcome (op : Op ν) (fault : Fault) (disk : Disk ν) : Bool × Disk ν :=
  match fault with
  | .none => op.perform disk
  | .fails written => (false, op.fail written disk)

@[simp] theorem Disk.set_same (disk : Disk ν) (name : ν) (file : Option File) :
    disk.set name file name = file := if_pos rfl

theorem Disk.set_other (disk : Disk ν) {name other : ν} (file : Option File) (differs : other ≠ name) :
    disk.set name file other = disk other := if_neg differs

@[simp] theorem Disk.set_set (disk : Disk ν) (name : ν) (first second : Option File) :
    (disk.set name first).set name second = disk.set name second := by
  funext other
  by_cases here : other = name
  · rw [here, set_same, set_same]
  · rw [set_other _ _ here, set_other _ _ here, set_other _ _ here]

@[simp] theorem Disk.content_set_same (disk : Disk ν) (name : ν) (file : Option File) :
    (disk.set name file).content name = file.map File.content := by
  rw [content, set_same]

theorem Disk.change_some {disk : Disk ν} {name : ν} {file : File} (present : disk name = some file)
    (f : File → File) : disk.change name f = (true, disk.set name (some (f file))) := by
  rw [change, present]

end Disk

/-- A program over the file system. Reads are dependable; every other step may fail. -/
inductive Prog (ν α : Type) where
  | done (value : α)
  | read (name : ν) (next : Option Bytes → Prog ν α)
  | act (op : Op ν) (next : Bool → Prog ν α)

@[simp] theorem File.content_update (file : File) (change : Update) :
    (file.update change).content = change.apply file.content := by
  rw [content, update, List.foldl_append]
  rfl

@[simp] theorem File.content_synced (file : File) : file.synced.content = file.content := rfl

theorem Update.resize_of_le {content : Bytes} {size : Nat} (small : size ≤ content.length) :
    (Update.resize size).apply content = content.take size := by
  simp only [apply, Nat.sub_eq_zero_of_le small, List.replicate_zero, List.append_nil]

namespace Prog

variable {ν α β : Type}

def bind : Prog ν α → (α → Prog ν β) → Prog ν β
  | .done value, f => f value
  | .read name next, f => .read name fun content => (next content).bind f
  | .act op next, f => .act op fun ok => (next ok).bind f

instance : Monad (Prog ν) where
  pure := .done
  bind := bind

def content (name : ν) : Prog ν (Option Bytes) := .read name .done

def perform (op : Op ν) : Prog ν Bool := .act op .done

-- The second step is only taken when the first one succeeded.
def both (first second : Prog ν Bool) : Prog ν Bool := do
  if ← first then second else pure false

variable [DecidableEq ν]

/-- Run a program to its end, `faults` saying how each operation goes. -/
def exec (faults : Op ν → Fault) : Prog ν α → Disk ν → α × Disk ν
  | .done value, disk => (value, disk)
  | .read name next, disk => (next (disk.content name)).exec faults disk
  | .act op next, disk => (next (op.outcome (faults op) disk).1).exec faults (op.outcome (faults op) disk).2

/-- Started on the disk, the program keeps `always` before each of its steps and ends in `post`, whichever
of the faults that `allow` admits it meets. -/
def Keeps (allow : Op ν → Fault → Prop) (always : Disk ν → Prop) (post : α → Disk ν → Prop) :
    Prog ν α → Disk ν → Prop
  | .done value, disk => post value disk
  | .read name next, disk => (next (disk.content name)).Keeps allow always post disk
  | .act op next, disk => always disk ∧ ∀ fault, allow op fault →
    (next (op.outcome fault disk).1).Keeps allow always post (op.outcome fault disk).2

section Rules

variable {allow : Op ν → Fault → Prop} {always : Disk ν → Prop} {post : α → Disk ν → Prop}

theorem Keeps.mono {weaker : α → Disk ν → Prop} {program : Prog ν α} {disk : Disk ν}
    (keeps : program.Keeps allow always post disk) (implies : ∀ value disk, post value disk → weaker value disk) :
    program.Keeps allow always weaker disk := by
  induction program generalizing disk with
  | done value => exact implies value disk keeps
  | read name next ih => exact ih _ keeps
  | act op next ih => exact ⟨keeps.1, fun fault allowed => ih _ (keeps.2 fault allowed)⟩

theorem Keeps.bind {program : Prog ν β} {next : β → Prog ν α} {disk : Disk ν}
    (keeps : program.Keeps allow always (fun value disk => (next value).Keeps allow always post disk) disk) :
    (program >>= next).Keeps allow always post disk := by
  induction program generalizing disk with
  | done value => exact keeps
  | read name more ih => exact ih _ keeps
  | act op more ih => exact ⟨keeps.1, fun fault allowed => ih _ (keeps.2 fault allowed)⟩

theorem Keeps.content {name : ν} {found : Option Bytes} {next : Option Bytes → Prog ν α} {disk : Disk ν}
    (stored : disk.content name = found) (keeps : (next found).Keeps allow always post disk) :
    (Prog.content name >>= next).Keeps allow always post disk := by
  subst stored
  exact keeps

theorem Keeps.both {first second : Prog ν Bool} {post : Bool → Disk ν → Prop} {disk : Disk ν}
    (keeps : first.Keeps allow always (fun ok disk =>
      if ok then second.Keeps allow always post disk else post false disk) disk) :
    (first.both second).Keeps allow always post disk := by
  refine Keeps.bind (keeps.mono ?_)
  intro ok disk after
  cases ok with
  | true => exact after
  | false => exact after

theorem Keeps.perform {op : Op ν} {post : Bool → Disk ν → Prop} {disk : Disk ν} (start : always disk)
    (failed : ∀ written, allow op (.fails written) → post false (op.fail written disk))
    (performed : allow op .none → post (op.perform disk).1 (op.perform disk).2) :
    (perform op).Keeps allow always post disk := by
  refine ⟨start, ?_⟩
  intro fault allowed
  cases fault with
  | none => exact performed allowed
  | fails written => exact failed written allowed

theorem Keeps.exec {faults : Op ν → Fault} {program : Prog ν α} {disk : Disk ν}
    (keeps : program.Keeps (fun op fault => fault = faults op) always post disk) :
    post (program.exec faults disk).1 (program.exec faults disk).2 := by
  induction program generalizing disk with
  | done value => exact keeps
  | read name next ih => exact ih _ keeps
  | act op next ih => exact ih _ (keeps.2 (faults op) rfl)

end Rules

end Prog

end SubConverter.Fs
