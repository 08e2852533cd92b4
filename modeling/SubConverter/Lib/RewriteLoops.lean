import SubConverter.Lib.Loops
import SubConverter.Lib.Places
import SubConverter.Lib.Rewriting

set_option autoImplicit false

namespace SubConverter.Loops

open Rewriting (Rule Advances rewrite rewriteFrom rewriteFrom_hit rewriteFrom_miss)

variable {σ α : Type}

section Searches

open Places (FirstFrom)

variable {Found Valid : Nat → Prop} {search : Nat → Option Nat} (run : Nat → Fueled (Option Nat)) {bound : Nat}

theorem search_ends (within : ∀ place, Found place → place < bound) (first : ∀ start, FirstFrom Found start (search start))
    (nothing : ∀ start, search start = none → Halts (run start) none)
    (takes : ∀ start place, search start = some place → Valid place → Halts (run start) (some place))
    (goes : ∀ start place found, search start = some place → ¬Valid place → Halts (run (place + 1)) found → Halts (run start) found)
    (start : Nat) : ∃ found, Halts (run start) found ∧ FirstFrom (fun place => Found place ∧ Valid place) start found := by
  induction size : bound - start using Nat.strong_induction_on generalizing start with
  | _ _ ih =>
    subst size
    have here := first start
    cases searched : search start with
    | none =>
      rw [searched] at here
      exact ⟨none, nothing start searched, fun place behind both => here place behind both.1⟩
    | some place =>
      rw [searched] at here
      obtain ⟨behind, there, before⟩ := here
      have inside := within place there
      by_cases valid : Valid place
      · exact ⟨some place, takes start place searched valid, behind, ⟨there, valid⟩,
          fun other after less both => before other after less both.1⟩
      · obtain ⟨found, ends, later⟩ := ih (bound - (place + 1)) (by omega) (place + 1) rfl
        refine ⟨found, goes start place found searched valid ends, later.earlier (by omega) fun other after less both => ?_⟩
        rcases Nat.lt_succ_iff_lt_or_eq.mp less with less | rfl
        · exact before other after less both.1
        · exact valid both.2

end Searches

section Passes

def Misses (rule : Rule α) (text : List α) (start stop : Nat) : Prop :=
  ∀ place, start ≤ place → place < stop → rule (text.take place) (text.drop place) = none

variable {rule : Rule α} {text : List α} {start stop : Nat}

theorem rewriteFrom_places (order : start ≤ stop) (inside : stop ≤ text.length) (misses : Misses rule text start stop) :
    rewriteFrom rule (text.take start) 0 (text.drop start) = rewriteFrom rule (text.take stop) 0 (text.drop stop) := by
  induction stop, order using Nat.le_induction with
  | base => rfl
  | succ stop order ih =>
    have last := misses stop order (Nat.lt_succ_self stop)
    rw [ih (by omega) fun place behind before => misses place behind (by omega)]
    rw [List.drop_eq_getElem_cons inside] at last ⊢
    rw [rewriteFrom_miss last, List.take_append_getElem inside]

/-- What one turn of a loop over a text does: the loop is over, or it goes on to a later place, or it puts in what the rule says.
`At s text place` holds where the loop is at a place of a text. -/
inductive Passes (rule : Rule α) (At : σ → List α → Nat → Prop) (turn : σ → Fueled (Turn σ (List α))) (s : σ) (text : List α)
    (place : Nat) : Prop
  | ends (misses : Misses rule text place text.length) (left : Halts (turn s) (.done text))
  | goes (next : σ) {stop : Nat} (later : place < stop) (inside : stop ≤ text.length) (misses : Misses rule text place stop)
      (on : Halts (turn s) (.again next)) (there : At next text stop)
  | hits (next : σ) {hit : Nat} {out left : List α} (later : place ≤ hit) (inside : hit < text.length)
      (misses : Misses rule text place hit) (applies : rule (text.take hit) (text.drop hit) = some (out, left))
      (on : Halts (turn s) (.again next)) (there : At next (text.take hit ++ out ++ left) (hit + out.length))

theorem loop_rewrites {At : σ → List α → Nat → Prop} {turn : σ → Fueled (Turn σ (List α))} (advances : Advances rule)
    (turns : ∀ {s : σ} {text : List α} {place : Nat}, place ≤ text.length → At s text place → Passes rule At turn s text place)
    {s : σ} {place : Nat} (inside : place ≤ text.length) (start : At s text place) :
    Halts (loop turn s) (rewriteFrom rule (text.take place) 0 (text.drop place)) := by
  -- The text itself changes at a hit, and what is behind the place gets shorter in every turn.
  induction size : text.length - place using Nat.strong_induction_on generalizing s text place with
  | _ _ ih =>
    subst size
    cases turns inside start with
    | ends misses left =>
      rw [rewriteFrom_places inside le_rfl misses, List.take_length, List.drop_length]
      exact Halts.loop_done left
    | @goes next stop later within misses on there =>
      rw [rewriteFrom_places later.le within misses]
      exact Halts.loop_again on (ih (text.length - stop) (by omega) within there rfl)
    | @hits next hit out left later within misses applies on there =>
      rw [rewriteFrom_places later within.le misses]
      rw [List.drop_eq_getElem_cons within] at applies ⊢
      rw [rewriteFrom_hit advances applies]
      have shorter := (advances.within applies).length_le
      rw [List.length_drop] at shorter
      have width : (text.take hit ++ out).length = hit + out.length := by
        rw [List.length_append, List.length_take, Nat.min_eq_left within.le]
      have length : (text.take hit ++ out ++ left).length = hit + out.length + left.length := by
        rw [List.length_append, width]
      have result := ih ((text.take hit ++ out ++ left).length - (hit + out.length)) (by omega) (by omega) there rfl
      rw [← width, List.take_left, List.drop_left] at result
      exact Halts.loop_again on result

theorem loop_rewrites_text (At : σ → List α → Nat → Prop) {turn : σ → Fueled (Turn σ (List α))} (advances : Advances rule)
    (turns : ∀ {s : σ} {text : List α} {place : Nat}, place ≤ text.length → At s text place → Passes rule At turn s text place)
    {s : σ} (start : At s text 0) : Halts (loop turn s) (rewrite rule text) :=
  loop_rewrites advances turns (Nat.zero_le _) start

end Passes

end SubConverter.Loops
