import Mathlib.Data.List.DropRight
import Mathlib.Tactic

set_option autoImplicit false

namespace SubConverter.Rewriting

variable {α : Type}

abbrev Rule (α : Type) := List α → List α → Option (List α × List α)

structure Advances (rule : Rule α) : Prop where
  within : ∀ {before rest out left : List α} {c : α}, rule before (c :: rest) = some (out, left) → left <:+ rest

-- `skip` characters have been taken by the last hit.
def rewriteFrom (rule : Rule α) : List α → Nat → List α → List α
  | before, _, [] => before
  | before, skip + 1, _ :: rest => rewriteFrom rule before skip rest
  | before, 0, c :: rest =>
    match rule before (c :: rest) with
    | some (out, left) => rewriteFrom rule (before ++ out) (rest.length - left.length) rest
    | none => rewriteFrom rule (before ++ [c]) 0 rest

def rewrite (rule : Rule α) (text : List α) : List α := rewriteFrom rule [] 0 text

section Steps

variable {rule : Rule α} {before rest out left : List α} {c : α}

theorem rewriteFrom_skip (skip : Nat) : rewriteFrom rule before skip rest = rewriteFrom rule before 0 (rest.drop skip) := by
  induction skip generalizing rest with
  | zero => rfl
  | succ skip ih =>
    cases rest with
    | nil => rfl
    | cons c rest =>
      rw [rewriteFrom, ih]
      rfl

theorem rewriteFrom_hit (advances : Advances rule) (hit : rule before (c :: rest) = some (out, left)) :
    rewriteFrom rule before 0 (c :: rest) = rewriteFrom rule (before ++ out) 0 left := by
  rw [rewriteFrom, hit]
  dsimp only
  rw [rewriteFrom_skip]
  obtain ⟨taken, rfl⟩ := advances.within hit
  rw [List.length_append, Nat.add_sub_cancel, List.drop_left]

theorem rewriteFrom_miss (miss : rule before (c :: rest) = none) :
    rewriteFrom rule before 0 (c :: rest) = rewriteFrom rule (before ++ [c]) 0 rest := by
  rw [rewriteFrom, miss]

theorem rewriteFrom_misses {part : List α} (misses : ∀ front c back, part = front ++ c :: back →
    rule (before ++ front) (c :: (back ++ rest)) = none) :
    rewriteFrom rule before 0 (part ++ rest) = rewriteFrom rule (before ++ part) 0 rest := by
  induction part generalizing before with
  | nil => rw [List.nil_append, List.append_nil]
  | cons c part ih =>
    have here := misses [] c part rfl
    rw [List.append_nil] at here
    rw [List.cons_append, rewriteFrom_miss here, ih, List.append_assoc]
    · rfl
    · intro front d back same
      have there := misses (c :: front) d back (by rw [same]; rfl)
      rwa [List.append_assoc]

end Steps

section Hidden

variable {rule : Rule α}

theorem rewriteFrom_front (advances : Advances rule) (State : List α → List α → Prop) (hidden : Set (List α))
    (step : ∀ {before front : List α} {c : α}, State before (c :: front) →
      ((∀ text ∈ hidden, rule before (c :: (front ++ text)) = none) ∧ State (before ++ [c]) front) ∨
      (∃ out left, left <:+ front ∧ State (before ++ out) left ∧
        ∀ text ∈ hidden, rule before (c :: (front ++ text)) = some (out, left ++ text)) ∨
      ∃ out left, ∀ text ∈ hidden, rule before (c :: (front ++ text)) = some (out, left))
    {before front : List α} (start : State before front) :
    (∃ reached, State reached [] ∧
      ∀ text ∈ hidden, rewriteFrom rule before 0 (front ++ text) = rewriteFrom rule reached 0 text) ∨
    ∃ result, ∀ text ∈ hidden, rewriteFrom rule before 0 (front ++ text) = result := by
  induction size : front.length using Nat.strong_induction_on generalizing before front with
  | _ _ ih =>
    subst size
    cases front with
    | nil => exact .inl ⟨before, start, fun _ _ => rfl⟩
    | cons c front =>
      rcases step start with ⟨miss, state⟩ | ⟨out, left, shorter, state, hit⟩ | ⟨out, left, hit⟩
      · rcases ih front.length (Nat.lt_succ_self _) state rfl with ⟨reached, last, same⟩ | ⟨result, same⟩
        · exact .inl ⟨reached, last, fun text among => (rewriteFrom_miss (miss text among)).trans (same text among)⟩
        · exact .inr ⟨result, fun text among => (rewriteFrom_miss (miss text among)).trans (same text among)⟩
      · have less : left.length < (c :: front).length := Nat.lt_succ_of_le shorter.length_le
        rcases ih left.length less state rfl with ⟨reached, last, same⟩ | ⟨result, same⟩
        · exact .inl ⟨reached, last, fun text among => (rewriteFrom_hit advances (hit text among)).trans (same text among)⟩
        · exact .inr ⟨result, fun text among => (rewriteFrom_hit advances (hit text among)).trans (same text among)⟩
      · exact .inr ⟨_, fun text among => rewriteFrom_hit advances (hit text among)⟩

theorem rewriteFrom_behind (advances : Advances rule) (hidden : Set (List α)) {rest : List α}
    (blind : ∀ front ∈ hidden, ∀ other ∈ hidden, ∀ back left : List α,
      left <:+ rest → rule (front ++ back) left = rule (other ++ back) left) (back : List α) :
    ∃ result, ∀ front ∈ hidden, rewriteFrom rule (front ++ back) 0 rest = front ++ result := by
  induction size : rest.length using Nat.strong_induction_on generalizing rest back with
  | _ _ ih =>
    subst size
    cases rest with
    | nil => exact ⟨back, fun _ _ => rfl⟩
    | cons c rest =>
      by_cases nothing : hidden = ∅
      · exact ⟨[], fun front among => by simp [nothing] at among⟩
      obtain ⟨sample, known⟩ := Set.nonempty_iff_ne_empty.mpr nothing
      have same (front : List α) (among : front ∈ hidden) : rule (front ++ back) (c :: rest) = rule (sample ++ back) (c :: rest) :=
        blind front among sample known back _ List.suffix_rfl
      cases answer : rule (sample ++ back) (c :: rest) with
      | none =>
        obtain ⟨result, later⟩ := ih rest.length (Nat.lt_succ_self _) (fun front among other there back left shorter =>
          blind front among other there back left (shorter.trans (List.suffix_cons c rest))) (back ++ [c]) rfl
        refine ⟨result, fun front among => ?_⟩
        rw [rewriteFrom_miss ((same front among).trans answer), List.append_assoc]
        exact later front among
      | some hit =>
        obtain ⟨out, left⟩ := hit
        have shorter : left <:+ rest := advances.within answer
        obtain ⟨result, later⟩ := ih left.length (Nat.lt_succ_of_le shorter.length_le) (fun front among other there back left within =>
          blind front among other there back left (within.trans (shorter.trans (List.suffix_cons c rest)))) (back ++ out) rfl
        refine ⟨result, fun front among => ?_⟩
        rw [rewriteFrom_hit advances ((same front among).trans answer), List.append_assoc]
        exact later front among

end Hidden

end SubConverter.Rewriting
