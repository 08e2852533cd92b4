import SubConverter.Lib.AsciiCase
import SubConverter.Lib.Delimited
import SubConverter.Lib.Rewriting

set_option autoImplicit false

namespace SubConverter.AsciiCuts

def Ascii (c : Char) : Prop := c.toNat < 128

instance (c : Char) : Decidable (Ascii c) := inferInstanceAs (Decidable (_ < _))

structure Cuttable (Kind : Text → Prop) : Prop where
  nil : Kind []
  append : ∀ {front back : Text}, Kind front → Kind back → Kind (front ++ back)
  single : ∀ {c : Char}, Ascii c → Kind [c]
  cut : ∀ {front back : Text} {c : Char}, Ascii c → Kind (front ++ c :: back) → Kind front ∧ Kind back

variable {Kind : Text → Prop} {text front back : Text} {c : Char}

section Characters

theorem ascii_of_alphanum (letter : c.isAlphanum = true) : Ascii c := by
  have ranges : ((65 ≤ c.val.toNat ∧ c.val.toNat ≤ 90) ∨ (97 ≤ c.val.toNat ∧ c.val.toNat ≤ 122)) ∨
      (48 ≤ c.val.toNat ∧ c.val.toNat ≤ 57) := by
    simpa [Char.isAlphanum, Char.isAlpha, Char.isUpper, Char.isLower, Char.isDigit, UInt32.le_iff_toNat_le] using letter
  change c.val.toNat < 128
  omega

theorem ascii_of_mem {marks : List Char} (all : (marks.all fun mark => decide (Ascii mark)) = true) (there : c ∈ marks) : Ascii c := by
  simpa using List.all_eq_true.mp all c there

theorem ascii_toLower : Ascii c.toLower ↔ Ascii c := by
  rcases toLower_cases c with ⟨same, -⟩ | ⟨shifted, low, high⟩
  · rw [same]
  · rw [Ascii, Ascii]
    omega

end Characters

namespace Cuttable

variable (kind : Cuttable Kind)

include kind

theorem ascii (all : ∀ c ∈ text, Ascii c) : Kind text := by
  induction text with
  | nil => exact kind.nil
  | cons c rest ih =>
    rw [List.forall_mem_cons] at all
    exact kind.append (kind.single all.1) (ih all.2)

theorem literal (all : (text.all fun c => decide (Ascii c)) = true) : Kind text := kind.ascii fun _ there => ascii_of_mem all there

theorem tail (ascii : Ascii c) (whole : Kind (c :: back)) : Kind back := by
  rw [← List.nil_append (c :: back)] at whole
  exact (kind.cut ascii whole).2

theorem flatten {parts : List Text} (all : ∀ part ∈ parts, Kind part) : Kind parts.flatten := by
  induction parts with
  | nil => exact kind.nil
  | cons part rest ih =>
    rw [List.forall_mem_cons] at all
    exact kind.append all.1 (ih all.2)

theorem edge (whole : Kind (front ++ back)) (edge : (∀ c ∈ back.head?, Ascii c) ∨ ∀ c ∈ front.getLast?, Ascii c) :
    Kind front ∧ Kind back := by
  rcases edge with ahead | behind
  · cases back with
    | nil => exact ⟨by rwa [List.append_nil] at whole, kind.nil⟩
    | cons c rest =>
      have ascii := ahead c rfl
      obtain ⟨left, right⟩ := kind.cut ascii whole
      exact ⟨left, kind.append (kind.single ascii) right⟩
  · rcases List.eq_nil_or_concat front with rfl | ⟨inner, c, rfl⟩
    · exact ⟨kind.nil, whole⟩
    · rw [List.concat_eq_append] at whole behind ⊢
      have ascii := behind c (by simp)
      rw [List.append_assoc, List.singleton_append] at whole
      obtain ⟨left, right⟩ := kind.cut ascii whole
      exact ⟨kind.append left (kind.single ascii), right⟩

theorem while_stop (holds : Char → Bool) (whole : Kind text) (stops : ∀ c, holds c = false → Ascii c) :
    Kind (text.takeWhile holds) ∧ Kind (text.dropWhile holds) := by
  have parts := List.takeWhile_append_dropWhile (p := holds) (l := text)
  refine kind.edge (by rwa [parts]) (.inl fun c first => stops c ?_)
  have found := List.head?_dropWhile_not holds text
  rw [first] at found
  exact found

theorem rwhile_stop (holds : Char → Bool) (whole : Kind text) (stops : ∀ c, holds c = false → Ascii c) :
    Kind (text.rdropWhile holds) ∧ Kind (text.rtakeWhile holds) := by
  have parts : text.rdropWhile holds ++ text.rtakeWhile holds = text := List.rdropWhile_append_rtakeWhile
  refine kind.edge (by rwa [parts]) (.inr fun c last => stops c ?_)
  rw [List.rdropWhile, List.getLast?_reverse] at last
  have found := List.head?_dropWhile_not holds text.reverse
  rw [last] at found
  exact found

theorem cutAt_ascii {mark : Text} (present : mark ≠ []) (all : ∀ c ∈ mark, Ascii c) (whole : Kind text)
    (cut : cutAt mark text = some (front, back)) : Kind front ∧ Kind back := by
  rw [eq_of_cutAt cut] at whole
  have last : ∀ c ∈ (front ++ mark).getLast?, Ascii c := by
    intro c there
    rw [List.getLast?_append_of_ne_nil _ present] at there
    exact all c (List.mem_of_getLast? there)
  have first : ∀ c ∈ mark.head?, Ascii c := fun c there => all c (List.mem_of_head? there)
  obtain ⟨left, right⟩ := kind.edge whole (.inr last)
  exact ⟨(kind.edge left (.inl first)).1, right⟩

theorem splitOn (ascii : Ascii c) (whole : Kind text) : ∀ part ∈ text.splitOn c, Kind part := by
  induction size : text.length using Nat.strong_induction_on generalizing text with
  | _ _ ih =>
    subst size
    by_cases there : c ∈ text
    · obtain ⟨part, rest, rfl, first⟩ := List.eq_append_cons_of_mem there
      obtain ⟨left, right⟩ := kind.cut ascii whole
      have later := ih rest.length (by rw [List.length_append, List.length_cons]; omega) right rfl
      rw [List.splitOn_append_cons_self_of_not_mem first, List.forall_mem_cons]
      exact ⟨left, later⟩
    · rw [List.splitOn_eq_singleton there, List.forall_mem_singleton]
      exact whole

theorem intercalate (ascii : Ascii c) {parts : List Text} (all : ∀ part ∈ parts, Kind part) : Kind ([c].intercalate parts) := by
  induction parts with
  | nil => exact kind.nil
  | cons part rest ih =>
    rw [List.forall_mem_cons] at all
    cases rest with
    | nil => simpa using all.1
    | cons next more =>
      rw [List.intercalate_cons_of_ne_nil (by simp)]
      exact kind.append (kind.append all.1 (kind.single ascii)) (ih all.2)

theorem flatMap {write : Char → Text} (changed : ∀ c, Ascii c → Kind (write c)) (same : ∀ c, ¬Ascii c → write c = [c])
    (whole : Kind text) : Kind (text.flatMap write) := by
  induction size : text.length using Nat.strong_induction_on generalizing text with
  | _ _ ih =>
    subst size
    -- Cut at an ASCII character; a text without one stays as it is.
    by_cases some' : ∃ c ∈ text, Ascii c
    · obtain ⟨c, there, ascii⟩ := some'
      obtain ⟨front, back, rfl⟩ := List.append_of_mem there
      obtain ⟨left, right⟩ := kind.cut ascii whole
      rw [List.length_append, List.length_cons] at ih
      rw [List.flatMap_append, List.flatMap_cons]
      exact kind.append (ih front.length (by omega) left rfl) (kind.append (changed c ascii) (ih back.length (by omega) right rfl))
    · push Not at some'
      have plain : text.flatMap write = text.flatMap fun c => [c] := List.flatMap_congr fun c there => same c (some' c there)
      rwa [plain, List.flatMap_singleton']

end Cuttable

section Passes

open Rewriting

structure Keeps (Kind : Text → Prop) (rule : Rule Char) : Prop where
  hit : ∀ {before rest out left : Text} {c : Char}, rule before (c :: rest) = some (out, left) →
    Ascii c ∧ (Kind rest → Kind out ∧ Kind left)

variable {rule : Rule Char}

theorem Cuttable.rewriteFrom (kind : Cuttable Kind) (advances : Advances rule) (keeps : Keeps Kind rule) {before : Text}
    (whole : Kind (before ++ text)) : Kind (rewriteFrom rule before 0 text) := by
  induction size : text.length using Nat.strong_induction_on generalizing before text with
  | _ _ ih =>
    subst size
    cases text with
    | nil => rwa [List.append_nil] at whole
    | cons c rest =>
      cases answer : rule before (c :: rest) with
      | none =>
        rw [rewriteFrom_miss answer]
        exact ih rest.length (Nat.lt_succ_self _) (by rwa [List.append_assoc, List.singleton_append]) rfl
      | some hit =>
        obtain ⟨out, left⟩ := hit
        have shorter := (advances.within answer).length_le
        obtain ⟨ascii, later⟩ := keeps.hit answer
        obtain ⟨first, last⟩ := kind.cut ascii whole
        obtain ⟨changed, behind⟩ := later last
        rw [rewriteFrom_hit advances answer]
        exact ih left.length (Nat.lt_succ_of_le shorter) (kind.append (kind.append first changed) behind) rfl

theorem Cuttable.rewrite (kind : Cuttable Kind) (advances : Advances rule) (keeps : Keeps Kind rule) (whole : Kind text) :
    Kind (rewrite rule text) := kind.rewriteFrom advances keeps whole

end Passes

end SubConverter.AsciiCuts
