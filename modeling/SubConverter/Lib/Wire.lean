import Mathlib.Tactic

set_option autoImplicit false

namespace SubConverter.Wire

abbrev Bytes := List UInt8

-- One proof for every membership that is decided.
instance : LawfulBEq Bytes := inferInstance

def leBytes : Nat → Nat → Bytes
  | 0, _ => []
  | width + 1, value => UInt8.ofNat (value % 256) :: leBytes width (value / 256)

def leValue : Bytes → Nat
  | [] => 0
  | byte :: rest => byte.toNat + 256 * leValue rest

@[simp] theorem length_leBytes (width value : Nat) : (leBytes width value).length = width := by
  induction width generalizing value with
  | zero => rfl
  | succ width ih => simp [leBytes, ih]

theorem leValue_leBytes (width value : Nat) (bound : value < 256 ^ width) :
    leValue (leBytes width value) = value := by
  induction width generalizing value with
  | zero => simp at bound; simp [leBytes, leValue, bound]
  | succ width ih =>
    have quotient : value / 256 < 256 ^ width := by
      rw [Nat.div_lt_iff_lt_mul (by omega)]
      simpa [Nat.pow_succ] using bound
    have digit : (UInt8.ofNat (value % 256)).toNat = value % 256 := by
      simp [UInt8.toNat_ofNat']
    simp only [leBytes, leValue, ih _ quotient, digit]
    omega

theorem leValue_lt (bytes : Bytes) : leValue bytes < 256 ^ bytes.length := by
  induction bytes with
  | nil => simp [leValue]
  | cons byte rest ih =>
    have digit := byte.toNat_lt
    simp only [leValue, List.length_cons, Nat.pow_succ]
    omega

theorem leBytes_leValue (bytes : Bytes) : leBytes bytes.length (leValue bytes) = bytes := by
  induction bytes with
  | nil => rfl
  | cons byte rest ih =>
    have digit := byte.toNat_lt
    have low : (byte.toNat + 256 * leValue rest) % 256 = byte.toNat := by omega
    have high : (byte.toNat + 256 * leValue rest) / 256 = leValue rest := by omega
    simp [leBytes, leValue, low, high, ih]

abbrev Decoder := StateT Bytes Option

def take (count : Nat) : Decoder Bytes := fun input =>
  if count ≤ input.length then some (input.take count, input.drop count) else none

def require (condition : Prop) [Decidable condition] : Decoder Unit := fun input =>
  if condition then some ((), input) else none

def remaining : Decoder Nat := fun input => some (input.length, input)

/-- `decoder` reads exactly `bytes` off the front of any input and returns `value`. -/
def Reads {α : Type} (decoder : Decoder α) (bytes : Bytes) (value : α) : Prop :=
  ∀ rest, decoder.run (bytes ++ rest) = some (value, rest)

/-- Every value `decoder` can return satisfies `post`. -/
def Yields {α : Type} (decoder : Decoder α) (post : α → Prop) : Prop :=
  ∀ input value rest, decoder.run input = some (value, rest) → post value

section Rules

variable {α β : Type}

theorem run_require (condition : Prop) [Decidable condition] (input : Bytes) :
    (require condition).run input = if condition then some ((), input) else none := rfl

theorem Reads.pure (value : α) : Reads (pure value) [] value := by
  intro rest
  simp

theorem Reads.bind {first : Decoder α} {next : α → Decoder β} {bytes more : Bytes} {a : α} {b : β}
    (head : Reads first bytes a) (tail : Reads (next a) more b) :
    Reads (first >>= next) (bytes ++ more) b := by
  intro rest
  have first := head (more ++ rest)
  simp only [StateT.run_bind, List.append_assoc, first]
  exact tail rest

theorem Reads.run_bind {first : Decoder α} {bytes : Bytes} {a : α} (head : Reads first bytes a)
    (next : α → Decoder β) (rest : Bytes) : (first >>= next).run (bytes ++ rest) = (next a).run rest := by
  rw [StateT.run_bind, head rest]
  rfl

theorem Reads.require {condition : Prop} [Decidable condition] (holds : condition) :
    Reads (require condition) [] () := by
  intro rest
  simp [run_require, holds]

theorem Reads.map {first : Decoder α} {bytes : Bytes} {a : α} (f : α → β)
    (head : Reads first bytes a) : Reads (first >>= fun x => Pure.pure (f x)) bytes (f a) := by
  have joined : Reads (first >>= fun x => Pure.pure (f x)) (bytes ++ []) (f a) :=
    Reads.bind head (Reads.pure (f a))
  simpa using joined

theorem run_require_bind {condition : Prop} [Decidable condition] (holds : condition)
    (next : Unit → Decoder β) (input : Bytes) :
    (Wire.require condition >>= next).run input = (next ()).run input := by
  rw [StateT.run_bind, run_require, if_pos holds]
  rfl

theorem run_remaining_bind (next : Nat → Decoder β) (input : Bytes) :
    (remaining >>= next).run input = (next input.length).run input := rfl

theorem reads_take (bytes : Bytes) : Reads (take bytes.length) bytes bytes := by
  intro rest
  simp [take, StateT.run]

theorem take_sound {count : Nat} {input bytes rest : Bytes}
    (taken : (take count).run input = some (bytes, rest)) :
    bytes.length = count ∧ input = bytes ++ rest := by
  simp only [take, StateT.run] at taken
  split at taken
  · cases taken
    exact ⟨by simpa using by assumption, (List.take_append_drop count input).symm⟩
  · contradiction

theorem bind_run {first : Decoder α} {next : α → Decoder β} {input rest : Bytes} {b : β}
    (ran : (first >>= next).run input = some (b, rest)) :
    ∃ a middle, first.run input = some (a, middle) ∧ (next a).run middle = some (b, rest) := by
  simp only [StateT.run_bind] at ran
  cases head : first.run input with
  | none => simp [head] at ran
  | some pair => exact ⟨pair.1, pair.2, rfl, by simpa [head] using ran⟩

theorem require_run {condition : Prop} [Decidable condition] {input rest : Bytes} {u : Unit}
    (ran : (require condition).run input = some (u, rest)) : condition ∧ rest = input := by
  simp only [run_require] at ran
  split at ran
  · exact ⟨by assumption, by cases ran; rfl⟩
  · contradiction

theorem Yields.pure {post : α → Prop} {value : α} (holds : post value) :
    Yields (Pure.pure value) post := by
  intro input result rest ran
  simp at ran
  exact ran.1 ▸ holds

theorem Yields.bind {first : Decoder α} {next : α → Decoder β} {middle : α → Prop} {post : β → Prop}
    (head : Yields first middle) (tail : ∀ a, middle a → Yields (next a) post) :
    Yields (first >>= next) post := by
  intro input value rest ran
  obtain ⟨a, rest', ranHead, ranTail⟩ := bind_run ran
  exact tail a (head _ _ _ ranHead) _ _ _ ranTail

theorem Yields.require (condition : Prop) [Decidable condition] :
    Yields (Wire.require condition) (fun _ => condition) := by
  intro input value rest ran
  exact (require_run ran).1

theorem Yields.trivial (decoder : Decoder α) : Yields decoder (fun _ => True) := by
  intro input value rest ran
  exact True.intro

end Rules

/-- Read `count` entries whose keys differ from each other and from every key in `seen`. -/
def distinct {κ α : Type} [DecidableEq κ] (key : Decoder κ) (body : κ → Decoder α) :
    Nat → List κ → Decoder (List (κ × α))
  | 0, _ => pure []
  | count + 1, seen => do
    let k ← key
    require (k ∉ seen)
    let value ← body k
    let rest ← distinct key body count (k :: seen)
    pure ((k, value) :: rest)

section Distinct

variable {σ κ α : Type} [DecidableEq κ]

theorem reads_distinct (key : Decoder κ) (body : κ → Decoder α) (encodeKey : κ → Bytes)
    (encodeBody : σ → Bytes) (keyOf : σ → κ) (valueOf : σ → α) (sources : List σ) (seen : List κ)
    (readsKey : ∀ source ∈ sources, Reads key (encodeKey (keyOf source)) (keyOf source))
    (readsBody : ∀ source ∈ sources, Reads (body (keyOf source)) (encodeBody source) (valueOf source))
    (nodup : (sources.map keyOf).Nodup) (fresh : ∀ source ∈ sources, keyOf source ∉ seen) :
    Reads (distinct key body sources.length seen)
      (sources.flatMap fun source => encodeKey (keyOf source) ++ encodeBody source)
      (sources.map fun source => (keyOf source, valueOf source)) := by
  induction sources generalizing seen with
  | nil => exact Reads.pure []
  | cons source rest ih =>
    simp only [List.map_cons, List.nodup_cons, List.mem_map, not_exists, not_and] at nodup
    have later : Reads (distinct key body rest.length (keyOf source :: seen))
        (rest.flatMap fun source => encodeKey (keyOf source) ++ encodeBody source)
        (rest.map fun source => (keyOf source, valueOf source)) := by
      apply ih
      · exact fun other member => readsKey other (List.mem_cons_of_mem _ member)
      · exact fun other member => readsBody other (List.mem_cons_of_mem _ member)
      · exact nodup.2
      · intro other member
        simp only [List.mem_cons, not_or]
        exact ⟨nodup.1 other member, fresh other (List.mem_cons_of_mem _ member)⟩
    have whole : Reads (distinct key body (rest.length + 1) seen)
        (encodeKey (keyOf source) ++ ([] ++ (encodeBody source ++
          ((rest.flatMap fun source => encodeKey (keyOf source) ++ encodeBody source) ++ []))))
        ((keyOf source, valueOf source) :: rest.map fun source => (keyOf source, valueOf source)) :=
      Reads.bind (readsKey source (by simp))
        (Reads.bind (Reads.require (fresh source (by simp)))
          (Reads.bind (readsBody source (by simp)) (Reads.bind later (Reads.pure _))))
    simpa using whole

theorem yields_distinct {key : Decoder κ} {body : κ → Decoder α} {keyOk : κ → Prop}
    {entryOk : κ → α → Prop} (yieldsKey : Yields key keyOk) (yieldsBody : ∀ k, keyOk k → Yields (body k) (entryOk k))
    (count : Nat) (seen : List κ) :
    Yields (distinct key body count seen) fun entries =>
      (entries.map Prod.fst).Nodup ∧
        ∀ entry ∈ entries, entry.1 ∉ seen ∧ keyOk entry.1 ∧ entryOk entry.1 entry.2 := by
  induction count generalizing seen with
  | zero => exact Yields.pure (by simp)
  | succ count ih =>
    refine Yields.bind yieldsKey fun k kOk => ?_
    refine Yields.bind (Yields.require (k ∉ seen)) fun _ unseen => ?_
    refine Yields.bind (yieldsBody k kOk) fun value valueOk => ?_
    refine Yields.bind (ih (k :: seen)) fun entries later => ?_
    obtain ⟨nodup, later⟩ := later
    refine Yields.pure ?_
    refine ⟨?_, ?_⟩
    · simp only [List.map_cons, List.nodup_cons, nodup, and_true, List.mem_map, not_exists, not_and]
      intro entry member same
      exact (later entry member).1 (by simp [same])
    · intro entry member
      rcases List.mem_cons.mp member with rfl | old
      · exact ⟨unseen, kOk, valueOk⟩
      · have facts := later entry old
        exact ⟨fun inSeen => facts.1 (List.mem_cons_of_mem _ inSeen), facts.2⟩

end Distinct

end SubConverter.Wire
