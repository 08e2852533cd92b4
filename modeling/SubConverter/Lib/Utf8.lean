import SubConverter.Lib.Wire
import SubConverter.Lib.Delimited

set_option autoImplicit false

namespace SubConverter.Utf8

open Wire (Bytes)

def runeError : Nat := 0xfffd

def leadByte (n : Nat) : Option (Nat × Nat × Nat) :=
  if n < 0xc2 then none
  else if n < 0xe0 then some (1, 0x80, 0xbf)
  else if n = 0xe0 then some (2, 0xa0, 0xbf)
  else if n = 0xed then some (2, 0x80, 0x9f)
  else if n < 0xf0 then some (2, 0x80, 0xbf)
  else if n = 0xf0 then some (3, 0x90, 0xbf)
  else if n < 0xf4 then some (3, 0x80, 0xbf)
  else if n = 0xf4 then some (3, 0x80, 0x8f)
  else none

def continuation (byte : UInt8) : Bool := 0x80 ≤ byte.toNat && byte.toNat ≤ 0xbf

/-- The first rune of a text and the number of bytes behind its first one that belong to it. Whatever is no valid
sequence is one byte of `runeError`. -/
def decodeRune (byte : UInt8) (rest : Bytes) : Nat × Nat :=
  if byte.toNat < 0x80 then (byte.toNat, 0)
  else
    match leadByte byte.toNat with
    | none => (runeError, 0)
    | some (count, low, high) =>
      let tail := rest.take count
      if tail.length = count ∧ (tail.head?.all fun next => low ≤ next.toNat && next.toNat ≤ high) ∧ tail.all continuation then
        (tail.foldl (fun value next => value * 64 + next.toNat % 64) (byte.toNat % 2 ^ (6 - count)), count)
      else (runeError, 0)

def encodeRune (rune : Nat) : Bytes :=
  if rune < 0x80 then [UInt8.ofNat rune]
  else if rune < 0x800 then [UInt8.ofNat (0xc0 + rune / 64), UInt8.ofNat (0x80 + rune % 64)]
  else if (0xd800 ≤ rune ∧ rune ≤ 0xdfff) ∨ 0x10ffff < rune then [0xef, 0xbf, 0xbd]
  else if rune < 0x10000 then
    [UInt8.ofNat (0xe0 + rune / 4096), UInt8.ofNat (0x80 + rune / 64 % 64), UInt8.ofNat (0x80 + rune % 64)]
  else
    [UInt8.ofNat (0xf0 + rune / 262144), UInt8.ofNat (0x80 + rune / 4096 % 64), UInt8.ofNat (0x80 + rune / 64 % 64),
      UInt8.ofNat (0x80 + rune % 64)]

-- The first argument counts the bytes that belong to the rune before.
def runesFrom : Nat → Bytes → List Nat
  | _, [] => []
  | skip + 1, _ :: rest => runesFrom skip rest
  | 0, byte :: rest => (decodeRune byte rest).1 :: runesFrom (decodeRune byte rest).2 rest

def runes (text : Bytes) : List Nat := runesFrom 0 text

def mapRunesFrom (mapping : Nat → Nat) (skip : Nat) (text : Bytes) : Bytes :=
  (runesFrom skip text).flatMap fun rune => encodeRune (mapping rune)

@[simp] theorem mapRunesFrom_nil (mapping : Nat → Nat) (skip : Nat) : mapRunesFrom mapping skip [] = [] := by
  cases skip <;> rfl

@[simp] theorem mapRunesFrom_succ (mapping : Nat → Nat) (skip : Nat) (byte : UInt8) (rest : Bytes) :
    mapRunesFrom mapping (skip + 1) (byte :: rest) = mapRunesFrom mapping skip rest := rfl

theorem mapRunesFrom_zero (mapping : Nat → Nat) (byte : UInt8) (rest : Bytes) :
    mapRunesFrom mapping 0 (byte :: rest) =
      encodeRune (mapping (decodeRune byte rest).1) ++ mapRunesFrom mapping (decodeRune byte rest).2 rest := by
  simp [mapRunesFrom, runesFrom]

def mapRunes (mapping : Nat → Nat) (text : Bytes) : Bytes := mapRunesFrom mapping 0 text

section Boundaries

variable {mapping : Nat → Nat} {byte ascii : UInt8} {rest before after text : Bytes}

theorem decodeRune_append (small : ascii.toNat < 0x80) :
    decodeRune byte (before ++ ascii :: after) = decodeRune byte before ∧
      (decodeRune byte before).2 ≤ before.length := by
  unfold decodeRune
  split
  · simp
  · split
    · simp
    · rename_i count low high lead
      by_cases enough : count ≤ before.length
      · rw [List.take_append_of_le_length enough]
        refine ⟨rfl, ?_⟩
        dsimp only
        split
        · exact enough
        · exact Nat.zero_le _
      · have short : (before.take count).length ≠ count := by
          rw [List.length_take]
          omega
        have broken : ((before ++ ascii :: after).take count).all continuation = false := by
          obtain ⟨more, same⟩ := Nat.exists_eq_add_of_lt (Nat.lt_of_not_le enough)
          rw [List.take_append, List.take_of_length_le (by omega), List.all_append]
          have here : count - before.length = more + 1 := by omega
          have outside : continuation ascii = false := by
            simp only [continuation, Bool.and_eq_false_iff, decide_eq_false_iff_not]
            omega
          rw [here, List.take_succ_cons, List.all_cons, outside]
          simp
        dsimp only
        rw [if_neg (fun valid => by simp [broken] at valid), if_neg (fun valid => short valid.1)]
        exact ⟨rfl, Nat.zero_le _⟩

theorem mapRunesFrom_append {skip : Nat} (small : ascii.toNat < 0x80) (inside : skip ≤ before.length) :
    mapRunesFrom mapping skip (before ++ ascii :: after) =
      mapRunesFrom mapping skip before ++ encodeRune (mapping ascii.toNat) ++ mapRunesFrom mapping 0 after := by
  induction before generalizing skip with
  | nil =>
    obtain rfl : skip = 0 := by simpa using inside
    simp [mapRunesFrom_zero, decodeRune, small]
  | cons byte more ih =>
    cases skip with
    | succ skip =>
      simp only [List.length_cons, Nat.add_le_add_iff_right] at inside
      simpa using ih inside
    | zero =>
      have decoded : decodeRune byte (more ++ ascii :: after) = decodeRune byte more ∧ (decodeRune byte more).2 ≤ more.length :=
        decodeRune_append small
      simp only [List.cons_append, mapRunesFrom_zero, decoded.1, ih decoded.2, List.append_assoc]

theorem lead_value {n count low high : Nat} (lead : leadByte n = some (count, low, high)) {tail : Bytes}
    (size : tail.length = count)
    (first : (tail.head?.all fun next => low ≤ next.toNat && next.toNat ≤ high) = true) :
    0x80 ≤ tail.foldl (fun value next => value * 64 + next.toNat % 64) (n % 2 ^ (6 - count)) := by
  have ranges : (count = 1 ∧ 0xc2 ≤ n ∧ n < 0xe0) ∨ (count = 2 ∧ n = 0xe0 ∧ low = 0xa0 ∧ high = 0xbf) ∨
      (count = 2 ∧ 0xe1 ≤ n ∧ n < 0xf0) ∨ (count = 3 ∧ n = 0xf0 ∧ low = 0x90 ∧ high = 0xbf) ∨
      (count = 3 ∧ 0xf1 ≤ n ∧ n ≤ 0xf4) := by
    unfold leadByte at lead
    grind
  match tail, size with
  | [], size =>
    simp only [List.length_nil] at size
    omega
  | [b1], size =>
    simp only [List.length_singleton] at size
    obtain rfl := size
    simp only [List.foldl_cons, List.foldl_nil, Nat.reduceSub]
    omega
  | [b1, b2], size =>
    simp only [List.length_cons, List.length_nil] at size
    obtain rfl := size
    simp only [List.head?_cons, Option.all_some, Bool.and_eq_true, decide_eq_true_eq] at first
    simp only [List.foldl_cons, List.foldl_nil, Nat.reduceAdd, Nat.reduceSub]
    omega
  | [b1, b2, b3], size =>
    simp only [List.length_cons, List.length_nil] at size
    obtain rfl := size
    simp only [List.head?_cons, Option.all_some, Bool.and_eq_true, decide_eq_true_eq] at first
    simp only [List.foldl_cons, List.foldl_nil, Nat.reduceAdd, Nat.reduceSub]
    omega
  | _ :: _ :: _ :: _ :: more, size =>
    simp only [List.length_cons] at size
    omega

theorem decodeRune_small (small : (decodeRune byte rest).1 < 0x80) :
    byte.toNat < 0x80 ∧ decodeRune byte rest = (byte.toNat, 0) := by
  by_cases low : byte.toNat < 0x80
  · exact ⟨low, by simp [decodeRune, low]⟩
  · unfold decodeRune at small
    rw [if_neg low] at small
    split at small
    · exact absurd small (by decide)
    · rename_i count bottom top lead
      dsimp only at small
      split at small
      · rename_i valid
        have large := lead_value lead valid.1 valid.2.1
        omega
      · exact absurd small (by decide)

theorem encodeRune_cases (rune : Nat) :
    (rune < 0x80 ∧ encodeRune rune = [UInt8.ofNat rune]) ∨ (0x80 ≤ rune ∧ ∀ byte ∈ encodeRune rune, 0x80 ≤ byte.toNat) := by
  unfold encodeRune
  split
  · exact .inl ⟨‹_›, rfl⟩
  · refine .inr ⟨by omega, ?_⟩
    split
    · simp only [List.mem_cons, List.not_mem_nil, or_false, forall_eq_or_imp, forall_eq, UInt8.toNat_ofNat']
      omega
    · split
      · decide +kernel
      · split
        · simp only [List.mem_cons, List.not_mem_nil, or_false, forall_eq_or_imp, forall_eq, UInt8.toNat_ofNat']
          omega
        · simp only [List.mem_cons, List.not_mem_nil, or_false, forall_eq_or_imp, forall_eq, UInt8.toNat_ofNat']
          omega

theorem encodeRune_ne_nil (rune : Nat) : encodeRune rune ≠ [] := by
  unfold encodeRune
  split_ifs <;> simp

theorem mapRunes_head {target : UInt8} {mapped : Bytes} (small : target.toNat < 0x80)
    (clean : ∀ rune, mapping rune = target.toNat → rune < 0x80)
    (begins : mapRunes mapping text = target :: mapped) :
    ∃ byte rest, text = byte :: rest ∧ mapping byte.toNat = target.toNat ∧ mapRunes mapping rest = mapped := by
  cases text with
  | nil => simp [mapRunes] at begins
  | cons byte rest =>
    rw [mapRunes, mapRunesFrom_zero] at begins
    rcases encodeRune_cases (mapping (decodeRune byte rest).1) with ⟨low, single⟩ | ⟨-, high⟩
    · rw [single, List.singleton_append, List.cons.injEq] at begins
      obtain ⟨same, others⟩ := begins
      have value : mapping (decodeRune byte rest).1 = target.toNat := by
        rw [← same, UInt8.toNat_ofNat']
        omega
      obtain ⟨-, decoded⟩ := decodeRune_small (clean _ value)
      rw [decoded] at value others
      exact ⟨byte, rest, rfl, value, others⟩
    · obtain ⟨first, more, whole⟩ := List.exists_cons_of_ne_nil (encodeRune_ne_nil (mapping (decodeRune byte rest).1))
      rw [whole, List.cons_append, List.cons.injEq] at begins
      have large := high first (by simp [whole])
      rw [begins.1] at large
      omega

end Boundaries

section Patterns

variable {mapping : Nat → Nat} {pattern text : Bytes}

def mapBytes (mapping : Nat → Nat) (text : Bytes) : List Nat := text.map fun byte => mapping byte.toNat

def Clean (mapping : Nat → Nat) (pattern : Bytes) : Prop :=
  ∀ target ∈ pattern, target.toNat < 0x80 ∧ ∀ rune, mapping rune = target.toNat → rune < 0x80

theorem prefix_mapRunes (clean : Clean mapping pattern) (begins : pattern <+: mapRunes mapping text) :
    pattern.map UInt8.toNat <+: mapBytes mapping text := by
  induction pattern generalizing text with
  | nil => exact List.nil_prefix
  | cons target more ih =>
    obtain ⟨tail, whole⟩ := begins
    obtain ⟨small, only⟩ := clean target List.mem_cons_self
    obtain ⟨byte, rest, rfl, value, mapped⟩ := mapRunes_head small only whole.symm
    have others := ih (fun target there => clean target (List.mem_cons_of_mem _ there)) ⟨tail, mapped.symm⟩
    simpa [mapBytes, value] using others

theorem infix_of_append {α : Type} {first : α} {pattern front tail : List α} (absent : first ∉ front)
    (inside : first :: pattern <:+: front ++ tail) : first :: pattern <:+: tail := by
  induction front with
  | nil => exact inside
  | cons head rest ih =>
    simp only [List.mem_cons, not_or] at absent
    rw [List.cons_append, List.infix_cons_iff, List.cons_prefix_cons] at inside
    rcases inside with ⟨same, -⟩ | inside
    · exact absurd same absent.1
    · exact ih absent.2 inside

theorem infix_mapRunes {skip : Nat} (clean : Clean mapping pattern) (inside : pattern <:+: mapRunesFrom mapping skip text) :
    pattern.map UInt8.toNat <:+: mapBytes mapping text := by
  cases pattern with
  | nil => exact List.nil_infix
  | cons target more =>
    induction text generalizing skip with
    | nil =>
      simp at inside
    | cons byte rest ih =>
      have later : (target :: more).map UInt8.toNat <:+: mapBytes mapping rest →
          (target :: more).map UInt8.toNat <:+: mapBytes mapping (byte :: rest) := fun found =>
        List.infix_cons_iff.mpr (.inr found)
      cases skip with
      | succ skip => exact later (ih inside)
      | zero =>
        rw [mapRunesFrom_zero] at inside
        rcases encodeRune_cases (mapping (decodeRune byte rest).1) with ⟨-, single⟩ | ⟨-, high⟩
        · rw [single, List.singleton_append, List.infix_cons_iff] at inside
          rcases inside with begins | inside
          · refine (prefix_mapRunes clean ?_).isInfix
            rw [mapRunes, mapRunesFrom_zero, single]
            exact begins
          · exact later (ih inside)
        · refine later (ih (infix_of_append ?_ inside))
          intro there
          have small := (clean target List.mem_cons_self).1
          have large := high target there
          omega

theorem mapRunes_hit (before hit after : Bytes) (clean : Clean mapping pattern) (present : pattern ≠ [])
    (same : mapBytes mapping hit = pattern.map UInt8.toNat) :
    mapRunes mapping (before ++ hit ++ after) = mapRunes mapping before ++ pattern ++ mapRunes mapping after := by
  induction hit generalizing before pattern with
  | nil =>
    obtain rfl : [] = pattern := by simpa [mapBytes] using same
    exact absurd rfl present
  | cons byte rest ih =>
    obtain ⟨target, more, rfl⟩ := List.exists_cons_of_ne_nil present
    simp only [mapBytes, List.map_cons, List.cons.injEq] at same
    obtain ⟨value, others⟩ := same
    obtain ⟨small, only⟩ := clean target List.mem_cons_self
    have single : encodeRune (mapping byte.toNat) = [target] := by
      rcases encodeRune_cases (mapping byte.toNat) with ⟨-, written⟩ | ⟨large, -⟩
      · rw [written, value, UInt8.ofNat_toNat]
      · omega
    have cut : mapRunes mapping (before ++ (byte :: rest) ++ after) =
        mapRunes mapping before ++ [target] ++ mapRunes mapping (rest ++ after) := by
      rw [List.append_assoc, List.cons_append, mapRunes,
        mapRunesFrom_append (only byte.toNat value) (Nat.zero_le _), single]
      rfl
    cases rest with
    | nil =>
      obtain rfl : [] = more := by simpa using others
      simpa using cut
    | cons next rest =>
      have later : more ≠ [] := by
        rintro rfl
        simp at others
      have tail := ih [] (fun target there => clean target (List.mem_cons_of_mem _ there)) later others
      rw [cut]
      simp only [List.nil_append] at tail
      rw [tail]
      simp [mapRunes]

theorem cutAt_mapRunes (clean : Clean mapping pattern) (present : pattern ≠ []) (text : Bytes) :
    cutAt pattern (mapRunes mapping text) =
      (cutAt (pattern.map UInt8.toNat) (mapBytes mapping text)).map fun parts =>
        (mapRunes mapping (text.take parts.1.length), mapRunes mapping (text.drop (parts.1.length + pattern.length))) := by
  have present' : pattern.map UInt8.toNat ≠ [] := by simpa using present
  cases found : cutAt (pattern.map UInt8.toNat) (mapBytes mapping text) with
  | none =>
    rw [cutAt_eq_none_iff present'] at found
    rw [Option.map_none, cutAt_eq_none_iff present]
    exact fun inside => found (infix_mapRunes clean inside)
  | some parts =>
    obtain ⟨left, right⟩ := parts
    rw [cutAt_eq_some_iff present'] at found
    obtain ⟨whole, first⟩ := found
    rw [Option.map_some, cutAt_eq_some_iff present]
    obtain ⟨front, after, rfl, frontMap, afterMap⟩ := List.map_eq_append_iff.mp whole
    obtain ⟨before, hit, rfl, beforeMap, hitMap⟩ := List.map_eq_append_iff.mp frontMap
    have leftLength : left.length = before.length := by simp [← beforeMap]
    have hitLength : pattern.length = hit.length := by simpa using (congrArg List.length hitMap).symm
    dsimp only
    rw [leftLength, hitLength, List.append_assoc, List.take_left, ← List.length_append, ← List.append_assoc, List.drop_left]
    refine ⟨mapRunes_hit before hit after clean present hitMap, ?_⟩
    intro inside
    refine first ?_
    have shorter : mapRunes mapping (before ++ hit.dropLast) = mapRunes mapping before ++ pattern.dropLast := by
      by_cases empty : pattern.dropLast = []
      · have none' : hit.dropLast = [] := by
          rw [← List.length_eq_zero_iff, List.length_dropLast] at empty ⊢
          omega
        simp [empty, none']
      · have same : mapBytes mapping hit.dropLast = pattern.dropLast.map UInt8.toNat := by
          rw [mapBytes, List.map_dropLast, hitMap, List.map_dropLast]
        have smaller := mapRunes_hit before hit.dropLast []
          (fun target there => clean target (List.mem_of_mem_dropLast there)) empty same
        simpa [mapRunes] using smaller
    rw [← shorter] at inside
    have found := infix_mapRunes clean inside
    rw [mapBytes, List.map_append, beforeMap, List.map_dropLast, hitMap] at found
    exact found

end Patterns

end SubConverter.Utf8
