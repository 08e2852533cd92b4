import Mathlib.Data.List.TakeWhile
import SubConverter.Handler.Addresses

set_option autoImplicit false

namespace SubConverter.Handler

section Octets

variable {text octet : Text} {n : Nat}

theorem digit_range {c : Char} (digit : c.isDigit = true) : 48 ≤ c.toNat ∧ c.toNat ≤ 57 := by
  simpa [Char.isDigit, UInt32.le_iff_toNat_le] using digit

theorem not_isSpace_of_isDigit {c : Char} (digit : c.isDigit = true) : isSpace c = false := by
  by_contra space
  simp only [isSpace, decide_eq_true_eq, Bool.not_eq_false, List.mem_cons, List.not_mem_nil, or_false] at space
  rcases space with rfl | rfl | rfl | rfl | rfl | rfl <;> revert digit <;> decide

theorem atoi_digits (digits : octet.all Char.isDigit = true) : atoi octet = digitsValue octet := by
  have kept : octet.dropWhile isSpace = octet := by
    cases octet with
    | nil => rfl
    | cons c rest =>
      simp only [List.all_cons, Bool.and_eq_true] at digits
      simp [List.dropWhile, not_isSpace_of_isDigit digits.1]
  have taken : octet.takeWhile Char.isDigit = octet := by
    rw [List.takeWhile_eq_self_iff]
    simpa using digits
  rw [atoi, kept]
  split
  · simp [Char.isDigit] at digits
  · simp [Char.isDigit] at digits
  · rw [taken]

theorem octetMatches_of_le (digits : octet.all Char.isDigit = true) (short : octet.length ≤ 3)
    (present : octet ≠ []) (range : digitsValue octet ≤ 255) : octetMatches octet = true := by
  match octet with
  | [] => exact absurd rfl present
  | [c] => simpa [octetMatches] using digits
  | [b, c] => simpa [octetMatches] using digits
  | [a, b, c] =>
    simp only [List.all_cons, List.all_nil, Bool.and_true, Bool.and_eq_true] at digits
    obtain ⟨digitA, digitB, digitC⟩ := digits
    have rangeA := digit_range digitA
    have rangeB := digit_range digitB
    have rangeC := digit_range digitC
    have number : ∀ {x y : Char}, x = y ↔ x.toNat = y.toNat := fun {x y} => Char.toNat_inj.symm
    have order : ∀ {x y : Char}, x ≤ y ↔ x.toNat ≤ y.toNat := fun {x y} => Iff.rfl
    simp only [digitsValue, List.foldl] at range
    simp only [octetMatches, digitB, digitC, Bool.and_true, Bool.or_eq_true, Bool.and_eq_true, beq_iff_eq,
      decide_eq_true_eq, number, order, Char.reduceToNat]
    omega
  | _ :: _ :: _ :: _ :: rest =>
    simp only [List.length_cons] at short
    omega

theorem ptonOctet_spec (read : ptonOctet octet = some n) :
    octet.all Char.isDigit = true ∧ octet ≠ [] ∧ octet.length ≤ 3 ∧ n ≤ 255 ∧ octetMatches octet = true ∧
      toInt octet (-1) = n := by
  rw [ptonOctet, Option.ite_none_right_eq_some] at read
  obtain ⟨⟨present, short, digits, -, range⟩, same⟩ := read
  obtain rfl : digitsValue octet = n := by simpa using same
  refine ⟨digits, present, short, range, octetMatches_of_le digits short present range, ?_⟩
  rw [toInt, if_neg present, atoi_digits digits]

end Octets

section DottedQuads

variable {text : Text} {quad : Quad}

def Quad.value (quad : Quad) : Nat := ((quad.a * 256 + quad.b) * 256 + quad.c) * 256 + quad.d

theorem shift_or {value part : Nat} (small : value < 2 ^ 24) (byte : part < 2 ^ 8) :
    (value <<< 8) % 2 ^ 32 ||| part = value * 256 + part := by
  have whole : value <<< 8 < 2 ^ 32 := by
    rw [Nat.shiftLeft_eq]
    omega
  rw [Nat.mod_eq_of_lt whole, ← Nat.shiftLeft_add_eq_or_of_lt byte, Nat.shiftLeft_eq]

theorem octetsValue_cons {octet : Text} {rest : List Text} {value part : Nat} (read : toInt octet (-1) = part)
    (byte : part ≤ 255) (small : value < 2 ^ 24) :
    octetsValue (octet :: rest) value = octetsValue rest (value * 256 + part) := by
  have inside : ¬((part : Int) < 0 ∨ 255 < (part : Int)) := by omega
  simp only [octetsValue, read, if_neg inside, Int.toNat_natCast]
  rw [shift_or small (by omega)]

structure Quad.Spelled (quad : Quad) (text : Text) : Prop where
  digits : ∀ c ∈ text, c.isDigit = true ∨ c = '.'
  dot : '.' ∈ text
  short : text.length ≤ 15
  bytes : quad.a ≤ 255 ∧ quad.b ≤ 255 ∧ quad.c ≤ 255 ∧ quad.d ≤ 255
  parsed : parseIpv4Address text = some quad.value

theorem spelled_of_inetPton4 (read : inetPton4 text = some quad) : quad.Spelled text := by
  unfold inetPton4 at read
  split at read
  case h_2 => cases read
  case h_1 a b c d parts =>
    simp only [Option.bind_eq_bind, Option.bind_eq_some_iff, Option.pure_def, Option.some.injEq] at read
    obtain ⟨na, readA, nb, readB, nc, readC, nd, readD, rfl⟩ := read
    obtain ⟨digitsA, presentA, shortA, rangeA, matchesA, valueA⟩ := ptonOctet_spec readA
    obtain ⟨digitsB, presentB, shortB, rangeB, matchesB, valueB⟩ := ptonOctet_spec readB
    obtain ⟨digitsC, presentC, shortC, rangeC, matchesC, valueC⟩ := ptonOctet_spec readC
    obtain ⟨digitsD, presentD, shortD, rangeD, matchesD, valueD⟩ := ptonOctet_spec readD
    have whole : text = a ++ '.' :: (b ++ '.' :: (c ++ '.' :: d)) := by
      have joined : ['.'].intercalate (text.splitOn '.') = text := List.intercalate_splitOn '.'
      rw [← joined, parts]
      simp [List.intercalate]
    refine ⟨?_, ?_, ?_, ⟨rangeA, rangeB, rangeC, rangeD⟩, ?_⟩
    · rw [List.all_eq_true] at digitsA digitsB digitsC digitsD
      intro x there
      rw [whole] at there
      simp only [List.mem_append, List.mem_cons] at there
      grind
    · simp [whole]
    · simp only [whole, List.length_append, List.length_cons]
      omega
    · have dotted : isIPv4 text = true := by simp [isIPv4, parts, matchesA, matchesB, matchesC, matchesD]
      have four : split text '.' = [a, b, c, d] := by
        simp [split, parts, presentD]
      simp only [parseIpv4Address, dotted, four, if_true, List.length_cons, List.length_nil]
      rw [octetsValue_cons valueA rangeA (by omega), octetsValue_cons valueB rangeB (by omega),
        octetsValue_cons valueC rangeC (by omega), octetsValue_cons valueD rangeD (by omega)]
      simp [octetsValue, Quad.value]

theorem isIPv4_dot (dotted : isIPv4 text = true) : '.' ∈ text := by
  by_contra absent
  simp [isIPv4, List.splitOn_eq_singleton absent] at dotted

theorem octetMatches_digits {octet : Text} (hit : octetMatches octet = true) : octet.all Char.isDigit = true := by
  match octet with
  | [] => rfl
  | [c] => simpa [octetMatches] using hit
  | [b, c] => simpa [octetMatches] using hit
  | [a, b, c] =>
    simp only [octetMatches, Bool.or_eq_true, Bool.and_eq_true, beq_iff_eq] at hit
    rcases hit with (⟨⟨⟨rfl, rfl⟩, digit⟩, -⟩ | ⟨⟨⟨rfl, digit⟩, -⟩, digit'⟩) | ⟨⟨rfl | rfl, digit⟩, digit'⟩ <;>
      simp_all
  | _ :: _ :: _ :: _ :: rest => simp [octetMatches] at hit

theorem isIPv4_digits (dotted : isIPv4 text = true) : ∀ c ∈ text, c.isDigit = true ∨ c = '.' := by
  simp only [isIPv4, Bool.and_eq_true, beq_iff_eq, List.all_eq_true] at dotted
  intro c there
  by_cases dot : c = '.'
  · exact .inr dot
  · obtain ⟨part, apart, inside⟩ := exists_mem_splitOn there dot
    exact .inl (List.all_eq_true.mp (octetMatches_digits (dotted.2 part apart)) c inside)

end DottedQuads

section Groups

variable {text part : Text} {parts : List Text} {groups : List Nat} {n : Nat}

theorem isHex_of_isDigit {c : Char} (digit : c.isDigit = true) : isHex c = true := by
  have range := digit_range digit
  have decimal : '0' ≤ c ∧ c ≤ '9' := ⟨range.1, range.2⟩
  simp [isHex, hexDigit, decimal]

theorem ne_of_isHex {c mark : Char} (hex : isHex c = true) (other : isHex mark = false) : c ≠ mark := by
  rintro rfl
  rw [other] at hex
  cases hex

theorem hexGroup_spec (read : hexGroup part = some n) :
    part ≠ [] ∧ part.length ≤ 4 ∧ (∀ c ∈ part, isHex c = true) ∧ hexValue part = n := by
  rw [hexGroup, Option.ite_none_right_eq_some] at read
  obtain ⟨⟨present, short, hex⟩, same⟩ := read
  exact ⟨present, short, List.all_eq_true.mp hex, by simpa using same⟩

def HexParts (parts : List Text) : Prop := ∀ part ∈ parts, (hexGroup part).isSome

theorem HexParts.letters (hex : HexParts parts) : ∀ c ∈ marked ':' parts, isHex c = true ∨ c = ':' := by
  induction parts with
  | nil => simp [marked]
  | cons part rest ih =>
    obtain ⟨n, read⟩ := Option.isSome_iff_exists.mp (hex part List.mem_cons_self)
    have digits := (hexGroup_spec read).2.2.1
    have others := ih fun part there => hex part (List.mem_cons_of_mem _ there)
    intro c there
    simp only [marked_cons, List.mem_append, List.mem_cons] at there
    rcases there with there | rfl | there
    · exact .inl (digits c there)
    · exact .inr rfl
    · exact others c there

theorem HexParts.length_le (hex : HexParts parts) : (marked ':' parts).length ≤ 5 * parts.length := by
  induction parts with
  | nil => simp [marked]
  | cons part rest ih =>
    obtain ⟨n, read⟩ := Option.isSome_iff_exists.mp (hex part List.mem_cons_self)
    have short := (hexGroup_spec read).2.1
    have others := ih fun part there => hex part (List.mem_cons_of_mem _ there)
    simp only [marked_cons, List.length_append, List.length_cons]
    omega

theorem hexGroups_spec (read : hexGroups parts = some groups) :
    HexParts parts ∧ groups.length = parts.length ∧ ∀ part ∈ parts.head?, hexGroup part = groups.head? := by
  induction parts generalizing groups with
  | nil =>
    obtain rfl : [] = groups := by simpa [hexGroups] using read
    exact ⟨fun part there => (List.not_mem_nil there).elim, rfl, by simp⟩
  | cons part rest ih =>
    simp only [hexGroups, Option.bind_eq_bind, Option.bind_eq_some_iff, Option.pure_def, Option.some.injEq] at read
    obtain ⟨n, first, others, inner, rfl⟩ := read
    obtain ⟨hex, count, -⟩ := ih inner
    refine ⟨?_, by simp [count], by simp [first]⟩
    intro part there
    rcases List.mem_cons.mp there with rfl | there
    · simp [first]
    · exact hex part there

def LastPart (tail : Text) (groups : List Nat) : Prop :=
  (∃ n, hexGroup tail = some n ∧ groups = [n]) ∨ ∃ quad, inetPton4 tail = some quad ∧ groups = quad.groups

theorem LastPart.letters {tail : Text} (last : LastPart tail groups) :
    ∀ c ∈ tail, isHex c = true ∨ c = '.' := by
  intro c there
  rcases last with ⟨n, read, -⟩ | ⟨quad, read, -⟩
  · exact .inl ((hexGroup_spec read).2.2.1 c there)
  · rcases (spelled_of_inetPton4 read).digits c there with digit | dot
    · exact .inl (isHex_of_isDigit digit)
    · exact .inr dot

theorem LastPart.length_le {tail : Text} (last : LastPart tail groups) : tail.length ≤ 5 * groups.length + 5 := by
  rcases last with ⟨n, read, rfl⟩ | ⟨quad, read, rfl⟩
  · have short := (hexGroup_spec read).2.1
    simp only [List.length_singleton]
    omega
  · have short := (spelled_of_inetPton4 read).short
    simp only [Quad.groups, List.length_cons, List.length_nil]
    omega

theorem tailGroups_spec (present : parts ≠ []) (read : tailGroups parts = some groups) :
    ∃ before tail front back, parts = before ++ [tail] ∧ groups = front ++ back ∧ HexParts before ∧
      front.length = before.length ∧ LastPart tail back ∧ ∀ part ∈ before.head?, hexGroup part = groups.head? := by
  induction parts using tailGroups.induct generalizing groups with
  | case1 => exact absurd rfl present
  | case2 part n first =>
    obtain rfl : [n] = groups := by simpa [tailGroups, first] using read
    exact ⟨[], part, [], [n], rfl, rfl, fun _ there => (List.not_mem_nil there).elim, rfl, .inl ⟨n, first, rfl⟩,
      by simp⟩
  | case3 part first =>
    simp only [tailGroups, first, Option.map_eq_some_iff] at read
    obtain ⟨quad, dotted, rfl⟩ := read
    exact ⟨[], part, [], quad.groups, rfl, rfl, fun _ there => (List.not_mem_nil there).elim, rfl,
      .inr ⟨quad, dotted, rfl⟩, by simp⟩
  | case4 part next rest ih =>
    simp only [tailGroups, Option.bind_eq_bind, Option.bind_eq_some_iff, Option.pure_def, Option.some.injEq] at read
    obtain ⟨n, first, others, inner, rfl⟩ := read
    obtain ⟨before, tail, front, back, whole, rfl, hex, count, last, -⟩ := ih (by simp) inner
    refine ⟨part :: before, tail, n :: front, back, by simp [whole], rfl, ?_, by simp [count], last, by simp [first]⟩
    intro part' there
    rcases List.mem_cons.mp there with rfl | there
    · simp [first]
    · exact hex part' there

structure Spelled6 (text : Text) (groups : List Nat) : Prop where
  eight : groups.length = 8
  letters : ∀ c ∈ text, isHex c = true ∨ c = ':' ∨ c = '.'
  short : text.length ≤ 45
  first : ∃ first rest, text = first ++ ':' :: rest ∧ (first = [] ∧ groups.head? = some 0 ∨ hexGroup first = groups.head?)
  last : ∃ before tail, text = before ++ ':' :: tail ∧ ':' ∉ tail ∧
    ('.' ∉ text ∨ ∃ quad, inetPton4 tail = some quad ∧ groups.drop 6 = quad.groups)

theorem LastPart.colon {tail : Text} (last : LastPart tail groups) : ':' ∉ tail := by
  intro there
  rcases last.letters ':' there with hex | dot
  · exact ne_of_isHex hex (by decide) rfl
  · cases dot

theorem LastPart.closes {tail : Text} {front back : List Nat} (last : LastPart tail back) (before : Text)
    (plain : '.' ∉ before) (eight : (front ++ back).length = 8) :
    '.' ∉ before ++ tail ∨ ∃ quad, inetPton4 tail = some quad ∧ (front ++ back).drop 6 = quad.groups := by
  rcases last with ⟨n, read, rfl⟩ | ⟨quad, read, rfl⟩
  · left
    have hex := (hexGroup_spec read).2.2.1
    simp only [List.mem_append, not_or]
    exact ⟨plain, fun there => ne_of_isHex (hex _ there) (by decide) rfl⟩
  · right
    refine ⟨quad, read, ?_⟩
    have six : front.length = 6 := by simpa [Quad.groups] using eight
    rw [← six, List.drop_left]

theorem no_dot_of_letters {before : Text} (letters : ∀ c ∈ before, isHex c = true ∨ c = ':') : '.' ∉ before := by
  intro there
  rcases letters '.' there with hex | same
  · exact ne_of_isHex hex (by decide) rfl
  · cases same

theorem spelled_without_double (read : tailGroups (colonParts text) = some groups) (eight : groups.length = 8) :
    Spelled6 text groups := by
  have present : text ≠ [] := by
    rintro rfl
    obtain rfl : [] = groups := by simpa [colonParts, tailGroups] using read
    cases eight
  rw [colonParts, if_neg present] at read
  obtain ⟨before, tail, front, back, parts, rfl, hex, count, last, head⟩ :=
    tailGroups_spec (List.splitOn_ne_nil _ _) read
  have whole : text = marked ':' before ++ tail := by
    rw [← intercalate_concat, ← parts, List.intercalate_splitOn]
  have two : back.length ≤ 2 := by
    rcases last with ⟨n, -, rfl⟩ | ⟨quad, -, rfl⟩ <;> simp [Quad.groups]
  have several : before ≠ [] := by
    rintro rfl
    simp only [List.length_append, count, List.length_nil] at eight
    omega
  obtain ⟨part, rest, rfl⟩ := List.exists_cons_of_ne_nil several
  obtain ⟨start, ends⟩ := mark_marked_ends ':' rest
  refine ⟨eight, ?_, ?_, ⟨part, marked ':' rest ++ tail, by simp [whole], .inr (head part rfl)⟩, ?_⟩
  · intro c there
    rw [whole, List.mem_append] at there
    rcases there with there | there
    · exact (hex.letters c there).imp id .inl
    · exact (last.letters c there).imp id .inr
  · have long := hex.length_le
    have long' := last.length_le
    simp only [List.length_append] at eight
    simp only [whole, List.length_append]
    omega
  · refine ⟨part ++ start, tail, ?_, last.colon, ?_⟩
    · rw [whole, marked_cons, ends]
      simp
    · rw [whole]
      exact last.closes _ (no_dot_of_letters hex.letters) eight

theorem hexGroups_side {left : Text} (read : hexGroups (colonParts left) = some groups) :
    (∀ c ∈ left, isHex c = true ∨ c = ':') ∧ left.length ≤ 5 * groups.length ∧
      (left = [] ∧ groups = [] ∨
        ∃ part rest, left ++ [':'] = part ++ ':' :: rest ∧ hexGroup part = groups.head? ∧ groups ≠ []) := by
  by_cases empty : left = []
  · obtain rfl : [] = groups := by simpa [colonParts, empty, hexGroups] using read
    simp [empty]
  · rw [colonParts, if_neg empty] at read
    obtain ⟨hex, count, head⟩ := hexGroups_spec read
    have whole := marked_splitOn ':' left
    obtain ⟨part, rest, parts⟩ := List.exists_cons_of_ne_nil (List.splitOn_ne_nil ':' left)
    refine ⟨?_, ?_, .inr ⟨part, marked ':' rest, ?_, head part (by simp [parts]), ?_⟩⟩
    · intro c there
      exact hex.letters c (by simp [whole, there])
    · have long := hex.length_le
      rw [whole, List.length_append, ← count] at long
      omega
    · rw [← whole, parts, marked_cons]
    · rintro rfl
      simp [parts] at count

theorem tailGroups_side {right : Text} (read : tailGroups (colonParts right) = some groups) :
    (∀ c ∈ right, isHex c = true ∨ c = ':' ∨ c = '.') ∧ right.length ≤ 5 * groups.length + 5 ∧
      ∃ before tail, ':' :: right = before ++ ':' :: tail ∧ ':' ∉ tail ∧ '.' ∉ before ∧
        ('.' ∉ tail ∨ ∃ front quad, inetPton4 tail = some quad ∧ groups = front ++ quad.groups) := by
  by_cases empty : right = []
  · obtain rfl : [] = groups := by simpa [colonParts, empty, tailGroups] using read
    simp only [empty, List.not_mem_nil, false_implies, implies_true, List.length_nil, Nat.zero_le, true_and]
    exact ⟨[], [], rfl, by simp, by simp, .inl (by simp)⟩
  · rw [colonParts, if_neg empty] at read
    obtain ⟨before, tail, front, back, parts, rfl, hex, count, last, -⟩ :=
      tailGroups_spec (List.splitOn_ne_nil _ _) read
    have whole : right = marked ':' before ++ tail := by
      rw [← intercalate_concat, ← parts, List.intercalate_splitOn]
    obtain ⟨start, ends⟩ := mark_marked_ends ':' before
    have plain : '.' ∉ start := by
      intro there
      have inside : '.' ∈ ':' :: marked ':' before := by simp [ends, there]
      rcases List.mem_cons.mp inside with same | inside
      · cases same
      · exact no_dot_of_letters hex.letters inside
    refine ⟨?_, ?_, start, tail, ?_, last.colon, plain, ?_⟩
    · intro c there
      rw [whole, List.mem_append] at there
      rcases there with there | there
      · exact (hex.letters c there).imp id .inl
      · exact (last.letters c there).imp id .inr
    · have long := hex.length_le
      have long' := last.length_le
      simp only [whole, List.length_append]
      omega
    · rw [whole, ← List.cons_append, ends]
      simp
    · rcases last with ⟨n, group, rfl⟩ | ⟨quad, dotted, rfl⟩
      · have digits := (hexGroup_spec group).2.2.1
        exact .inl fun there => ne_of_isHex (digits _ there) (by decide) rfl
      · exact .inr ⟨front, quad, dotted, rfl⟩

theorem spelled_with_double {left right : Text} {high low : List Nat} (leftRead : hexGroups (colonParts left) = some high)
    (rightRead : tailGroups (colonParts right) = some low) (room : high.length + low.length ≤ 7) :
    Spelled6 (left ++ ':' :: ':' :: right) (high ++ List.replicate (8 - high.length - low.length) 0 ++ low) := by
  obtain ⟨leftLetters, leftShort, leftHead⟩ := hexGroups_side leftRead
  obtain ⟨rightLetters, rightShort, before, tail, rightEnds, tailColon, beforePlain, rightLast⟩ := tailGroups_side rightRead
  have eight : (high ++ List.replicate (8 - high.length - low.length) 0 ++ low).length = 8 := by
    simp only [List.length_append, List.length_replicate]
    omega
  have leftPlain := no_dot_of_letters leftLetters
  refine ⟨eight, ?_, ?_, ?_, left ++ ':' :: before, tail, ?_, tailColon, ?_⟩
  · intro c there
    simp only [List.mem_append, List.mem_cons] at there
    rcases there with there | rfl | rfl | there
    · exact (leftLetters c there).imp id .inl
    · exact .inr (.inl rfl)
    · exact .inr (.inl rfl)
    · exact rightLetters c there
  · simp only [List.length_append, List.length_cons]
    omega
  · rcases leftHead with ⟨rfl, rfl⟩ | ⟨part, rest, starts, head, present⟩
    · refine ⟨[], ':' :: right, rfl, .inl ⟨rfl, ?_⟩⟩
      obtain ⟨zeros, count⟩ : ∃ zeros, 8 - ([] : List Nat).length - low.length = zeros + 1 :=
        ⟨7 - low.length, by simp only [List.length_nil] at room ⊢; omega⟩
      rw [count, List.replicate_succ]
      rfl
    · refine ⟨part, rest ++ ':' :: right, ?_, .inr ?_⟩
      · calc left ++ ':' :: ':' :: right = (left ++ [':']) ++ ':' :: right := by simp
          _ = part ++ ':' :: (rest ++ ':' :: right) := by simp [starts]
      · obtain ⟨first, others, rfl⟩ := List.exists_cons_of_ne_nil present
        simpa using head
  · rw [rightEnds]
    simp
  · rcases rightLast with plain | ⟨front, quad, read, rfl⟩
    · left
      rw [rightEnds]
      simp [leftPlain, beforePlain, plain]
    · right
      refine ⟨quad, read, ?_⟩
      rw [← List.append_assoc] at eight ⊢
      have six : (high ++ List.replicate (8 - high.length - (front ++ quad.groups).length) 0 ++ front).length = 6 := by
        simp only [List.length_append, Quad.groups, List.length_cons, List.length_nil] at eight ⊢
        omega
      rw [← six, List.drop_left]

theorem spelled_of_inetPton6 (read : inetPton6 text = some groups) : Spelled6 text groups := by
  unfold inetPton6 at read
  split at read
  case h_1 left right cut =>
    simp only [Option.bind_eq_bind, Option.bind_eq_some_iff, Option.ite_none_right_eq_some, Option.pure_def,
      Option.some.injEq] at read
    obtain ⟨high, leftRead, low, rightRead, room, rfl⟩ := read
    rw [eq_of_cutAt cut]
    simpa using spelled_with_double leftRead rightRead room
  case h_2 =>
    simp only [Option.bind_eq_bind, Option.bind_eq_some_iff, Option.ite_none_right_eq_some, Option.pure_def,
      Option.some.injEq] at read
    obtain ⟨groups', read, eight, rfl⟩ := read
    exact spelled_without_double read eight

end Groups

end SubConverter.Handler
