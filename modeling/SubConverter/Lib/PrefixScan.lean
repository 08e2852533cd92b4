import Mathlib.Tactic

set_option autoImplicit false

namespace SubConverter.PrefixScan

variable {σ β : Type}

structure Framed (next : σ → List β → Option (σ × List β)) : Prop where
  sound : ∀ {state state' : σ} {input rest : List β}, next state input = some (state', rest) →
    ∃ record, record ≠ [] ∧ input = record ++ rest
  frame : ∀ {state state' : σ} {record rest : List β}, next state (record ++ rest) = some (state', rest) →
    ∀ other, next state (record ++ other) = some (state', other)

structure Result (σ β : Type) where
  state : σ
  tail : List β
  records : Nat

-- The fuel is the number of records that may still be read.
def scanFuel (next : σ → List β → Option (σ × List β)) : Nat → σ → List β → Result σ β
  | 0, state, input => ⟨state, input, 0⟩
  | fuel + 1, state, input =>
    match next state input with
    | none => ⟨state, input, 0⟩
    | some (state', rest) =>
      let later := scanFuel next fuel state' rest
      ⟨later.state, later.tail, later.records + 1⟩

def scan (next : σ → List β → Option (σ × List β)) (state : σ) (input : List β) : Result σ β :=
  scanFuel next input.length state input

inductive Accepts (next : σ → List β → Option (σ × List β)) : σ → List (List β) → σ → Prop
  | nil (state : σ) : Accepts next state [] state
  | cons {state middle final : σ} {record : List β} {records : List (List β)} (nonempty : record ≠ [])
    (head : ∀ rest, next state (record ++ rest) = some (middle, rest))
    (tail : Accepts next middle records final) : Accepts next state (record :: records) final

variable {next : σ → List β → Option (σ × List β)}

theorem scanFuel_spec (framed : Framed next) (fuel : Nat) (state : σ) (input : List β)
    (enough : input.length ≤ fuel) :
    ∃ records, Accepts next state records (scanFuel next fuel state input).state ∧
      input = records.flatten ++ (scanFuel next fuel state input).tail ∧
      records.length = (scanFuel next fuel state input).records ∧
      next (scanFuel next fuel state input).state (scanFuel next fuel state input).tail = none := by
  induction fuel generalizing state input with
  | zero =>
    have empty : input = [] := List.length_eq_zero_iff.mp (Nat.le_zero.mp enough)
    subst empty
    refine ⟨[], Accepts.nil state, rfl, rfl, ?_⟩
    cases read : next state [] with
    | none => exact read
    | some pair =>
      obtain ⟨record, nonempty, split⟩ := framed.sound read
      exact absurd (List.append_eq_nil_iff.mp split.symm).1 nonempty
  | succ fuel ih =>
    simp only [scanFuel]
    cases read : next state input with
    | none => exact ⟨[], Accepts.nil state, rfl, rfl, read⟩
    | some pair =>
      obtain ⟨state', rest⟩ := pair
      obtain ⟨record, nonempty, rfl⟩ := framed.sound read
      have positive := List.length_pos_of_ne_nil nonempty
      rw [List.length_append] at enough
      obtain ⟨records, accepted, layout, count, stuck⟩ := ih state' rest (by omega)
      refine ⟨record :: records, Accepts.cons nonempty (framed.frame read) accepted, ?_, ?_, stuck⟩
      · rw [List.flatten_cons, List.append_assoc, ← layout]
      · rw [List.length_cons, count]

theorem scan_spec (framed : Framed next) (state : σ) (input : List β) :
    ∃ records, Accepts next state records (scan next state input).state ∧
      input = records.flatten ++ (scan next state input).tail ∧
      records.length = (scan next state input).records ∧
      next (scan next state input).state (scan next state input).tail = none :=
  scanFuel_spec framed input.length state input le_rfl

theorem Accepts.covers {state final stuck : σ} {records others : List (List β)} {tail rest : List β}
    (accepted : Accepts next state records stuck) (other : Accepts next state others final)
    (same : records.flatten ++ tail = others.flatten ++ rest) (refuses : next stuck tail = none) :
    ∃ more, records = others ++ more ∧ Accepts next final more stuck := by
  induction other generalizing records tail with
  | nil state => exact ⟨records, rfl, accepted⟩
  | cons nonempty head others ih =>
    cases accepted with
    | nil =>
      rw [List.flatten_nil, List.nil_append, List.flatten_cons, List.append_assoc] at same
      rw [same, head] at refuses
      contradiction
    | cons nonempty' head' accepted =>
      rename_i record' middle' records'
      rw [List.flatten_cons, List.append_assoc, List.flatten_cons, List.append_assoc] at same
      have left := head' (records'.flatten ++ tail)
      rw [same, head] at left
      obtain ⟨rfl, rest⟩ := Prod.mk.inj (Option.some.inj left)
      rw [← rest] at same
      have record := List.append_cancel_right same
      subst record
      obtain ⟨more, rfl, tail⟩ := ih accepted rest.symm refuses
      exact ⟨more, rfl, tail⟩

theorem scan_eq_of_accepts (framed : Framed next) {state final : σ} {records : List (List β)} {tail : List β}
    (accepted : Accepts next state records final) (refuses : next final tail = none) :
    scan next state (records.flatten ++ tail) = ⟨final, tail, records.length⟩ := by
  obtain ⟨found, reached, layout, count, stuck⟩ := scan_spec framed state (records.flatten ++ tail)
  generalize scan next state (records.flatten ++ tail) = result at *
  obtain ⟨more, rfl, later⟩ := reached.covers accepted layout.symm stuck
  obtain ⟨fewer, split, -⟩ := accepted.covers reached layout refuses
  have none : more = [] := by
    have lengths := congrArg List.length split
    simp only [List.length_append] at lengths
    exact List.length_eq_zero_iff.mp (by omega)
  subst none
  cases later
  rw [List.append_nil] at layout count
  obtain ⟨state', tail', records'⟩ := result
  have same := List.append_cancel_left layout
  simp only at same count ⊢
  rw [← count, ← same]

end SubConverter.PrefixScan
