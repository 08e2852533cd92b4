import Mathlib.Data.List.Sort

set_option autoImplicit false

namespace SubConverter.Retention

/-! The oldest entries of a list, by an order that compares keys. -/

section Retention

variable {α κ : Type} [LinearOrder κ] {key : α → κ} {older : α → α → Bool} {entries : List α} {x : α} {most : Nat}

def sorted (older : α → α → Bool) (entries : List α) : List α := entries.insertionSort fun first second => older second first = false

def oldest (older : α → α → Bool) (count : Nat) (entries : List α) : List α := (sorted older entries).take count

theorem perm_sorted (older : α → α → Bool) (entries : List α) : (sorted older entries).Perm entries := List.perm_insertionSort _ _

theorem length_oldest {count : Nat} (within : count ≤ entries.length) : (oldest older count entries).length = count := by
  rw [oldest, List.length_take, (perm_sorted older entries).length_eq, Nat.min_eq_left within]

theorem mem_of_oldest {count : Nat} (out : x ∈ oldest older count entries) : x ∈ entries :=
  (perm_sorted older entries).mem_iff.mp (List.mem_of_mem_take out)

variable (reads : ∀ first second, older first second = true ↔ key first < key second) (distinct : (entries.map key).Nodup)
include reads

theorem newer_iff (first second : α) : older second first = false ↔ key first ≤ key second := by
  rw [← Bool.not_eq_true, reads, not_lt]

include distinct

theorem pairwise_sorted : (sorted older entries).Pairwise fun first second => key first < key second := by
  have le : (sorted older entries).Pairwise fun first second => key first ≤ key second := by
    have total : Std.Total fun first second => older second first = false :=
      ⟨fun first second => by simp only [newer_iff reads]; exact LinearOrder.le_total _ _⟩
    have transitive : IsTrans α fun first second => older second first = false :=
      ⟨fun first second third => by simp only [newer_iff reads]; exact le_trans⟩
    exact (List.pairwise_insertionSort _ entries).imp fun newer => (newer_iff reads _ _).mp newer
  have ne : (sorted older entries).Pairwise fun first second => key first ≠ key second :=
    List.pairwise_map.mp (((perm_sorted older entries).map key).nodup_iff.mpr distinct)
  exact (le.and ne).imp fun ⟨le, ne⟩ => lt_of_le_of_ne le ne

theorem oldest_perm {others : List α} (same : others.Perm entries) (count : Nat) : oldest older count others = oldest older count entries := by
  have there : (others.map key).Nodup := (same.map key).nodup_iff.mpr distinct
  have sorts : (sorted older others).Perm (sorted older entries) :=
    (perm_sorted older others).trans (same.trans (perm_sorted older entries).symm)
  have order : sorted older others = sorted older entries :=
    List.Perm.eq_of_pairwise (fun _ _ _ _ first second => absurd first (lt_asymm second)) (pairwise_sorted reads there)
      (pairwise_sorted reads distinct) sorts
  rw [oldest, oldest, order]

theorem mem_oldest_iff (there : x ∈ entries) :
    x ∈ oldest older (entries.length - most) entries ↔ most ≤ entries.countP fun other => older x other := by
  have there' : x ∈ sorted older entries := (perm_sorted older entries).mem_iff.mpr there
  have order := pairwise_sorted reads distinct
  rw [← (perm_sorted older entries).countP_eq, ← (perm_sorted older entries).length_eq, oldest]
  obtain ⟨front, back, split⟩ := List.append_of_mem there'
  rw [split] at order ⊢
  obtain ⟨-, behind, across⟩ := List.pairwise_append.mp order
  obtain ⟨newer, -⟩ := List.pairwise_cons.mp behind
  have front_none : front.countP (fun other => older x other) = 0 := by
    rw [List.countP_eq_zero]
    intro other inside
    rw [reads]
    exact (across other inside x (.head _)).not_gt
  have back_all : back.countP (fun other => older x other) = back.length := by
    rw [List.countP_eq_length]
    exact fun other inside => (reads x other).mpr (newer other inside)
  have itself : older x x = false := (newer_iff reads x x).mpr le_rfl
  rw [List.countP_append, List.countP_cons_of_neg (by simp [itself]), front_none, back_all, List.length_append, List.length_cons,
    Nat.zero_add]
  have once : x ∉ front := fun inside => lt_irrefl _ (across x inside x (.head _))
  rw [List.take_append, List.mem_append]
  generalize taken : front.length + (back.length + 1) - most - front.length = left
  have counted : left ≠ 0 ↔ most ≤ back.length := by omega
  constructor
  · rintro (early | late)
    · exact absurd (List.mem_of_mem_take early) once
    · refine counted.mp fun none' => ?_
      rw [none'] at late
      cases late
  · intro many
    obtain ⟨left, rfl⟩ := Nat.exists_eq_succ_of_ne_zero (counted.mpr many)
    exact .inr (.head _)

theorem oldest_lt {count : Nat} {gone kept : α} (out : gone ∈ oldest older count entries) (there : kept ∈ entries)
    (left : kept ∉ oldest older count entries) : key gone < key kept := by
  have order := pairwise_sorted reads distinct
  rw [← List.take_append_drop count (sorted older entries)] at order
  obtain ⟨-, -, across⟩ := List.pairwise_append.mp order
  refine across gone out kept ?_
  have there' : kept ∈ sorted older entries := (perm_sorted older entries).mem_iff.mpr there
  rw [← List.take_append_drop count (sorted older entries), List.mem_append] at there'
  exact there'.resolve_left left

end Retention

end SubConverter.Retention
