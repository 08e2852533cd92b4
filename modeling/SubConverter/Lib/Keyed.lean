import Mathlib.Tactic

set_option autoImplicit false

namespace SubConverter.Keyed

/-! A map as the list of its entries, in the order in which it is walked. -/

variable {κ α : Type} [DecidableEq κ] {key : κ} {value : α} {entry : κ × α} {entries : List (κ × α)}

def find (key : κ) (entries : List (κ × α)) : Option α := (entries.find? fun entry => entry.1 = key).map Prod.snd

def put (key : κ) (value : α) : List (κ × α) → List (κ × α)
  | [] => [(key, value)]
  | entry :: rest => if entry.1 = key then (key, value) :: rest else entry :: put key value rest

def erase (key : κ) (entries : List (κ × α)) : List (κ × α) := entries.filter fun entry => entry.1 ≠ key

theorem find_eq_none_iff : find key entries = none ↔ key ∉ entries.map Prod.fst := by
  simp only [find, Option.map_eq_none_iff, List.find?_eq_none, decide_eq_true_eq, List.mem_map, not_exists, not_and]

theorem mem_of_find (found : find key entries = some value) : (key, value) ∈ entries := by
  obtain ⟨entry, first, rfl⟩ := Option.map_eq_some_iff.mp found
  have same : entry.1 = key := by simpa using List.find?_some first
  exact same ▸ List.mem_of_find?_eq_some first

theorem find_of_mem (distinct : (entries.map Prod.fst).Nodup) (there : (key, value) ∈ entries) : find key entries = some value := by
  induction entries with
  | nil => cases there
  | cons entry rest ih =>
    rw [List.map_cons, List.nodup_cons] at distinct
    by_cases same : entry.1 = key
    · rcases List.mem_cons.mp there with rfl | later
      · simp [find]
      · exact absurd (same ▸ List.mem_map_of_mem later) distinct.1
    · have later := (List.mem_cons.mp there).resolve_left fun here => same (here ▸ rfl)
      simpa [find, same] using ih distinct.2 later

theorem put_of_not_mem (absent : key ∉ entries.map Prod.fst) : put key value entries = entries ++ [(key, value)] := by
  induction entries with
  | nil => rfl
  | cons entry rest ih =>
    rw [List.map_cons, List.mem_cons, not_or] at absent
    rw [put, if_neg (Ne.symm absent.1), ih absent.2, List.cons_append]

@[simp] theorem find_cons (rest : List (κ × α)) : find key (entry :: rest) = if entry.1 = key then some entry.2 else find key rest := by
  by_cases same : entry.1 = key <;> simp [find, same]

theorem find_put : find key (put key value entries) = some value := by
  induction entries with
  | nil => simp [put]
  | cons entry rest ih =>
    rw [put]
    split
    next => simp
    next other => rw [find_cons, if_neg other, ih]

theorem find_put_of_ne {other : κ} (different : other ≠ key) : find other (put key value entries) = find other entries := by
  induction entries with
  | nil => simp [put, Ne.symm different]
  | cons entry rest ih =>
    rw [put]
    split
    next same => simp [same, Ne.symm different]
    next => rw [find_cons, find_cons, ih]

theorem find_erase : find key (erase key entries) = none := by
  rw [find_eq_none_iff, erase]
  simp

theorem find_erase_of_ne {other : κ} (different : other ≠ key) : find other (erase key entries) = find other entries := by
  induction entries with
  | nil => rfl
  | cons entry rest ih =>
    rw [erase, List.filter_cons]
    by_cases same : entry.1 = key
    · have apart : entry.1 ≠ other := same ▸ Ne.symm different
      rw [erase] at ih
      rw [if_neg (by simp [same]), find_cons, if_neg apart, ih]
    · rw [erase] at ih
      rw [if_pos (by simp [same]), find_cons, find_cons, ih]

theorem put_put_find {other : α} (found : find key entries = some value) : put key value (put key other entries) = entries := by
  induction entries with
  | nil => cases found
  | cons entry rest ih =>
    by_cases same : entry.1 = key
    · have here : entry = (key, value) := by
        have value : entry.2 = value := by simpa [find, same] using found
        exact Prod.ext same value
      rw [put, if_pos same, put, if_pos rfl, here]
    · have later : find key rest = some value := by simpa [find, same] using found
      rw [put, if_neg same, put, if_neg same, ih later]

theorem keys_put : (put key value entries).map Prod.fst =
    if key ∈ entries.map Prod.fst then entries.map Prod.fst else entries.map Prod.fst ++ [key] := by
  induction entries with
  | nil => simp [put]
  | cons entry rest ih =>
    by_cases same : entry.1 = key
    · simp [put, same]
    · have other : key ≠ entry.1 := Ne.symm same
      rw [put, if_neg same, List.map_cons, ih, List.map_cons]
      by_cases later : key ∈ rest.map Prod.fst <;> simp [later, other]

theorem nodup_put (distinct : (entries.map Prod.fst).Nodup) : ((put key value entries).map Prod.fst).Nodup := by
  rw [keys_put]
  split
  next => exact distinct
  next absent => exact List.Nodup.append distinct (List.nodup_singleton key) (by simpa using absent)

theorem mem_put (distinct : (entries.map Prod.fst).Nodup) :
    entry ∈ put key value entries ↔ entry = (key, value) ∨ (entry ∈ entries ∧ entry.1 ≠ key) := by
  induction entries with
  | nil => simp [put]
  | cons first rest ih =>
    rw [List.map_cons, List.nodup_cons] at distinct
    rw [put]
    split
    next same =>
      have absent : ∀ entry ∈ rest, entry.1 ≠ key := fun entry there here =>
        distinct.1 (same.trans here.symm ▸ List.mem_map_of_mem there)
      simp only [List.mem_cons]
      constructor
      · rintro (here | later)
        · exact .inl here
        · exact .inr ⟨.inr later, absent entry later⟩
      · rintro (here | ⟨rfl | later, other⟩)
        · exact .inl here
        · exact absurd same other
        · exact .inr later
    next other =>
      rw [List.mem_cons, ih distinct.2, List.mem_cons]
      constructor
      · rintro (rfl | here | ⟨later, different⟩)
        · exact .inr ⟨.inl rfl, other⟩
        · exact .inl here
        · exact .inr ⟨.inr later, different⟩
      · rintro (here | ⟨rfl | later, different⟩)
        · exact .inr (.inl here)
        · exact .inl rfl
        · exact .inr (.inr ⟨later, different⟩)

theorem forall_put {Holds : κ × α → Prop} (all : ∀ entry ∈ entries, Holds entry) (holds : Holds (key, value)) :
    ∀ entry ∈ put key value entries, Holds entry := by
  induction entries with
  | nil => simpa [put] using holds
  | cons first rest ih =>
    rw [List.forall_mem_cons] at all
    rw [put]
    split
    next => exact List.forall_mem_cons.mpr ⟨holds, all.2⟩
    next => exact List.forall_mem_cons.mpr ⟨all.1, ih all.2⟩

theorem foldl_put (more : List (κ × α)) (distinct : ((entries ++ more).map Prod.fst).Nodup) :
    more.foldl (fun entries entry => put entry.1 entry.2 entries) entries = entries ++ more := by
  induction more generalizing entries with
  | nil => simp
  | cons entry rest ih =>
    have absent : entry.1 ∉ entries.map Prod.fst := by
      rw [List.map_append, List.nodup_append] at distinct
      exact fun there => distinct.2.2 _ there _ (by simp) rfl
    rw [List.foldl_cons, put_of_not_mem absent, ih (by simpa using distinct)]
    simp

theorem foldl_put_keeps {Holds : List (κ × α) → Prop} (more : List (κ × α)) (holds : Holds entries)
    (step : ∀ (entries : List (κ × α)), ∀ entry ∈ more, Holds entries → Holds (put entry.1 entry.2 entries)) :
    Holds (more.foldl (fun entries entry => put entry.1 entry.2 entries) entries) := by
  induction more generalizing entries with
  | nil => exact holds
  | cons entry rest ih =>
    exact ih (step entries entry List.mem_cons_self holds) fun entries other there =>
      step entries other (List.mem_cons_of_mem _ there)

theorem perm_erase (distinct : (entries.map Prod.fst).Nodup) (there : (key, value) ∈ entries) :
    entries.Perm ((key, value) :: erase key entries) := by
  have whole := List.Nodup.of_map _ distinct
  have apart : (key, value) ∉ erase key entries := by simp [erase]
  refine (List.perm_ext_iff_of_nodup whole (List.nodup_cons.mpr ⟨apart, whole.filter _⟩)).mpr ?_
  rintro ⟨other, kept⟩
  rw [List.mem_cons, erase, List.mem_filter, decide_eq_true_eq]
  constructor
  · intro here
    by_cases same : other = key
    · subst same
      exact .inl (congrArg _ (Option.some.inj ((find_of_mem distinct here).symm.trans (find_of_mem distinct there))))
    · exact .inr ⟨here, same⟩
  · rintro (equal | ⟨here, _⟩)
    · exact equal ▸ there
    · exact here

theorem length_filter_not_mem {removed : List κ} (distinct : (entries.map Prod.fst).Nodup) (once : removed.Nodup)
    (known : ∀ key ∈ removed, key ∈ entries.map Prod.fst) :
    (entries.filter fun entry => entry.1 ∉ removed).length + removed.length = entries.length := by
  have gone : ((entries.map Prod.fst).filter fun key => key ∈ removed).Perm removed := by
    refine (List.perm_ext_iff_of_nodup (distinct.filter _) once).mpr fun key => ?_
    simp only [List.mem_filter, decide_eq_true_eq, and_iff_right_iff_imp]
    exact known key
  have counted := gone.length_eq
  rw [List.filter_map, List.length_map] at counted
  have both := List.length_eq_length_filter_add (l := entries) fun entry => decide (entry.1 ∈ removed)
  simp only [Function.comp_def] at counted
  simp only [decide_not]
  omega

section Lookups

variable {ν β : Type} [DecidableEq ν] {name : ν} {first second : List (κ × α)}

theorem find_append : find key (first ++ second) = (find key first).or (find key second) := by
  rw [find, find, find, List.find?_append, Option.map_or]

theorem find_reverse (distinct : (entries.map Prod.fst).Nodup) : find key entries.reverse = find key entries := by
  have backwards : (entries.reverse.map Prod.fst).Nodup := by rwa [List.map_reverse, List.nodup_reverse]
  cases found : find key entries with
  | none =>
    rw [find_eq_none_iff] at found ⊢
    rwa [List.map_reverse, List.mem_reverse]
  | some value => exact find_of_mem backwards (List.mem_reverse.mpr (mem_of_find found))

theorem mem_iff_find (distinct : (entries.map Prod.fst).Nodup) : (key, value) ∈ entries ↔ find key entries = some value :=
  ⟨find_of_mem distinct, mem_of_find⟩

theorem find_foldl_put (more : List (κ × α)) :
    find key (more.foldl (fun entries entry => put entry.1 entry.2 entries) entries) = (find key more.reverse).or (find key entries) := by
  induction more generalizing entries with
  | nil => rfl
  | cons entry rest ih =>
    have here : find key (put entry.1 entry.2 entries) = (find key [entry]).or (find key entries) := by
      rw [find_cons]
      split
      next same => rw [← same, find_put, Option.some_or]
      next other => rw [find_put_of_ne (Ne.symm other)]; rfl
    rw [List.foldl_cons, ih, here, List.reverse_cons, find_append, Option.or_assoc]

theorem find_filterMap {write : κ × α → Option (ν × β)} (distinct : (entries.map Prod.fst).Nodup)
    (named : ∀ entry ∈ entries, ∀ pair, write entry = some pair → (pair.1 = name ↔ entry.1 = key)) :
    find name (entries.filterMap write) = (find key entries).bind fun value => (write (key, value)).map Prod.snd := by
  induction entries with
  | nil => rfl
  | cons entry rest ih =>
    rw [List.map_cons, List.nodup_cons] at distinct
    rw [List.forall_mem_cons] at named
    rw [find_cons]
    cases written : write entry with
    | none =>
      rw [List.filterMap_cons_none written, ih distinct.2 named.2]
      split
      next same =>
        have absent : find key rest = none := find_eq_none_iff.mpr (same ▸ distinct.1)
        rw [absent, Option.bind_none, Option.bind_some, ← same, written]
        rfl
      next => rfl
    | some pair =>
      rw [List.filterMap_cons_some written, find_cons]
      by_cases same : entry.1 = key
      · rw [if_pos ((named.1 _ written).mpr same), if_pos same, Option.bind_some, ← same, written, Option.map_some]
      · rw [if_neg fun there => same ((named.1 _ written).mp there), if_neg same, ih distinct.2 named.2]

end Lookups

end SubConverter.Keyed
