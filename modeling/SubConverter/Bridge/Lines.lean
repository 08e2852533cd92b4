import SubConverter.Bridge.Preprocess
import SubConverter.Lib.Results

set_option autoImplicit false

namespace SubConverter.Bridge

open Wire (Bytes)
open Utf8

section LowerCase

theorem lowerRune_cases (rune : Nat) :
    lowerRune rune = rune ∨ ∃ range ∈ lowerRanges, range.first ≤ rune ∧ lowerRune rune = ((rune : Int) + range.shift).toNat := by
  unfold lowerRune
  split
  · rename_i range found
    have holds := List.find?_some found
    simp only [CaseRange.holds, Bool.and_eq_true, decide_eq_true_eq] at holds
    exact .inr ⟨range, List.mem_of_find?_eq_some found, holds.1.1, rfl⟩
  · exact .inl rfl

theorem lowerRanges_reach : ∀ range ∈ lowerRanges, 97 < (range.first : Int) + range.shift ∨ (range.first = 65 ∧ range.shift = 32) := by
  decide +kernel

theorem lowerRune_small {rune : Nat} (small : lowerRune rune ≤ 97) : lowerRune rune = rune ∨ (rune = 65 ∧ lowerRune rune = 97) := by
  rcases lowerRune_cases rune with same | ⟨range, there, first, value⟩
  · exact .inl same
  · right
    rcases lowerRanges_reach range there with high | ⟨base, shift⟩
    · omega
    · omega

theorem lowerRune_percent (rune : Nat) : lowerRune rune = 0x25 ↔ rune = 0x25 := by
  constructor
  · intro value
    rcases lowerRune_small (by omega : lowerRune rune ≤ 97) with same | ⟨-, other⟩ <;> omega
  · rintro rfl
    decide +kernel

theorem lowerRune_three (rune : Nat) : lowerRune rune = 0x33 ↔ rune = 0x33 := by
  constructor
  · intro value
    rcases lowerRune_small (by omega : lowerRune rune ≤ 97) with same | ⟨-, other⟩ <;> omega
  · rintro rfl
    decide +kernel

theorem lowerRune_a (rune : Nat) : lowerRune rune = 0x61 ↔ rune = 0x61 ∨ rune = 0x41 := by
  constructor
  · intro value
    rcases lowerRune_small (by omega : lowerRune rune ≤ 97) with same | ⟨upper, -⟩ <;> omega
  · rintro (rfl | rfl) <;> decide +kernel

theorem clean_colon : Clean lowerRune (ascii "%3a") := by
  have letters : ascii "%3a" = [0x25, 0x33, 0x61] := by decide
  intro target there
  rw [letters] at there
  simp only [List.mem_cons, List.not_mem_nil, or_false] at there
  rcases there with rfl | rfl | rfl
  · exact ⟨by decide, fun rune value => by have := (lowerRune_percent rune).mp value; omega⟩
  · exact ⟨by decide, fun rune value => by have := (lowerRune_three rune).mp value; omega⟩
  · exact ⟨by decide, fun rune value => by have := (lowerRune_a rune).mp value; omega⟩

end LowerCase

section Separators

def encodedColon : Bytes → Option Nat
  | [] => none
  | byte :: rest =>
    if byte = 0x25 ∧ rest.head? = some 0x33 ∧ (rest[1]? = some 0x61 ∨ rest[1]? = some 0x41) then some 0
    else (encodedColon rest).map (· + 1)

theorem encodedColon_spec {text : Bytes} {colon : Nat} (found : encodedColon text = some colon) :
    ∃ letter, (letter = 0x61 ∨ letter = 0x41) ∧ text = text.take colon ++ [0x25, 0x33, letter] ++ text.drop (colon + 3) := by
  induction text generalizing colon with
  | nil => cases found
  | cons byte rest ih =>
    rw [encodedColon] at found
    split at found
    · rename_i here
      obtain ⟨rfl, three, letter⟩ := here
      obtain rfl := Option.some.inj found
      match rest with
      | [] => cases three
      | [_] => simp at letter
      | second :: third :: more =>
        simp only [List.head?_cons, Option.some.injEq] at three
        subst three
        exact ⟨third, by simpa using letter, by simp⟩
    · obtain ⟨inner, later, rfl⟩ := Option.map_eq_some_iff.mp found
      obtain ⟨letter, case', whole⟩ := ih later
      refine ⟨letter, case', ?_⟩
      rw [List.take_succ_cons, show inner + 1 + 3 = (inner + 3) + 1 from rfl, List.drop_succ_cons, List.cons_append,
        List.cons_append, ← whole]

theorem cutAt_mapBytes (text : Bytes) :
    (cutAt ((ascii "%3a").map UInt8.toNat) (mapBytes lowerRune text)).map (fun parts => parts.1.length) = encodedColon text := by
  have letters : (ascii "%3a").map UInt8.toNat = [0x25, 0x33, 0x61] := by decide
  rw [letters]
  induction text with
  | nil => rfl
  | cons byte rest ih =>
    have number : ∀ {x : UInt8} {n : Nat}, n < 256 → (x.toNat = n ↔ x = UInt8.ofNat n) := by
      intro x n small
      rw [← UInt8.toNat_inj, UInt8.toNat_ofNat', Nat.mod_eq_of_lt small]
    have starts : [0x25, 0x33, 0x61].isPrefixOf (mapBytes lowerRune (byte :: rest)) = true ↔
        byte = 0x25 ∧ rest.head? = some 0x33 ∧ (rest[1]? = some 0x61 ∨ rest[1]? = some 0x41) := by
      match rest with
      | [] => simp [mapBytes, List.isPrefixOf]
      | [second] => simp [mapBytes, List.isPrefixOf]
      | second :: third :: more =>
        have first := lowerRune_percent byte.toNat
        have middle := lowerRune_three second.toNat
        have last := lowerRune_a third.toNat
        rw [number (by decide)] at first middle
        rw [number (by decide), number (by decide)] at last
        simp only [mapBytes, List.map_cons, List.isPrefixOf, Bool.and_eq_true, beq_iff_eq, Bool.and_true, List.head?_cons,
          Option.some.injEq, List.getElem?_cons_succ, List.getElem?_cons_zero]
        rw [eq_comm (b := lowerRune byte.toNat), first, eq_comm (b := lowerRune second.toNat), middle,
          eq_comm (b := lowerRune third.toNat), last]
        rfl
    rw [encodedColon]
    by_cases here : byte = 0x25 ∧ rest.head? = some 0x33 ∧ (rest[1]? = some 0x61 ∨ rest[1]? = some 0x41)
    · rw [if_pos here]
      have found := starts.mpr here
      simp only [mapBytes, List.map_cons] at found ⊢
      rw [cutAt, if_pos found]
      rfl
    · rw [if_neg here, ← ih]
      have missed : ¬[0x25, 0x33, 0x61].isPrefixOf (mapBytes lowerRune (byte :: rest)) = true := fun found => here (starts.mp found)
      simp only [mapBytes, List.map_cons] at missed ⊢
      rw [cutAt, if_neg missed, Option.map_map, Option.map_map]
      rfl

theorem index_toLower (userinfo : Bytes) :
    index (toLower userinfo) (ascii "%3a") =
      (encodedColon userinfo).map fun colon => (toLower (userinfo.take colon)).length := by
  rw [index, toLower, cutAt_mapRunes clean_colon (by decide), ← cutAt_mapBytes, Option.map_map, Option.map_map]
  rfl

end Separators

section Links

variable {line scheme userinfo rest : Bytes} {colon : Nat}

def inAuthority (byte : UInt8) : Bool := byte ∉ ascii "/?#"

structure LinkParts (line scheme userinfo rest : Bytes) : Prop where
  cut : cutAt (ascii "://") line = some (scheme, userinfo ++ 0x40 :: rest)
  kind : (equalFold scheme (ascii "ss") || equalFold scheme (ascii "tuic")) = true
  inside : ∀ byte ∈ userinfo, inAuthority byte
  last : 0x40 ∉ rest.takeWhile inAuthority

structure EncodedLink (line scheme userinfo rest : Bytes) (colon : Nat) : Prop extends LinkParts line scheme userinfo rest where
  plain : 0x3a ∉ userinfo
  first : encodedColon userinfo = some colon

def withColon (scheme userinfo rest : Bytes) (place : Nat) : Bytes :=
  scheme ++ ascii "://" ++ userinfo.take place ++ ascii ":" ++ userinfo.drop (place + 3) ++ 0x40 :: rest

theorem authority_cases (body : Bytes) :
    (indexAny body (ascii "/?#") = none ∧ body = body.takeWhile inAuthority) ∨
      ∃ stop, indexAny body (ascii "/?#") = some stop ∧ slice body 0 stop = some (body.takeWhile inAuthority) := by
  rw [indexAny, List.takeWhile_eq_take_findIdx_not]
  have same : (fun byte => !inAuthority byte) = fun byte => decide (byte ∈ ascii "/?#") := by
    funext byte
    simp [inAuthority]
  rw [same]
  cases found : body.findIdx? fun byte => byte ∈ ascii "/?#" with
  | none =>
    rw [List.findIdx?_eq_none_iff_findIdx_eq] at found
    exact .inl ⟨rfl, by rw [found, List.take_length]⟩
  | some stop =>
    obtain ⟨short, position⟩ := List.findIdx?_eq_some_iff_findIdx_eq.mp found
    exact .inr ⟨stop, rfl, by simp [slice, position, show stop ≤ body.length by omega]⟩

theorem exists_afterLast {text : Bytes} {byte : UInt8} (there : byte ∈ text) :
    ∃ front tail, text = front ++ byte :: tail ∧ byte ∉ tail := by
  induction text with
  | nil => cases there
  | cons head more ih =>
    by_cases later : byte ∈ more
    · obtain ⟨front, tail, whole, absent⟩ := ih later
      exact ⟨head :: front, tail, by rw [whole, List.cons_append], absent⟩
    · obtain rfl := (List.mem_cons.mp there).resolve_right later
      exact ⟨[], more, rfl, later⟩

theorem lastIndexByte_append {front tail : Bytes} {byte : UInt8} (absent : byte ∉ tail) :
    lastIndexByte (front ++ byte :: tail) byte = some front.length := by
  rw [lastIndexByte, afterLast_append absent, Option.map_some, List.length_append, List.length_cons]
  congr 1
  omega

theorem lastIndexByte_eq_none {text : Bytes} {byte : UInt8} (absent : byte ∉ text) : lastIndexByte text byte = none := by
  rw [lastIndexByte, afterLast_eq_none absent]
  rfl

theorem LinkParts.authority (parts : LinkParts line scheme userinfo rest) :
    (userinfo ++ 0x40 :: rest).takeWhile inAuthority = userinfo ++ 0x40 :: rest.takeWhile inAuthority := by
  rw [List.takeWhile_append_of_pos parts.inside, List.takeWhile_cons_of_pos (by decide)]

theorem LinkParts.unique {scheme' userinfo' rest' : Bytes} (parts : LinkParts line scheme userinfo rest)
    (others : LinkParts line scheme' userinfo' rest') : scheme = scheme' ∧ userinfo = userinfo' ∧ rest = rest' := by
  have cuts := parts.cut.symm.trans others.cut
  simp only [Option.some.injEq, Prod.mk.injEq] at cuts
  obtain ⟨schemes, bodies⟩ := cuts
  have authorities := congrArg (List.takeWhile inAuthority) bodies
  rw [parts.authority, others.authority] at authorities
  obtain ⟨infos, -⟩ := mark_append_inj parts.last others.last authorities
  subst infos
  exact ⟨schemes, rfl, by simpa using bodies⟩

theorem EncodedLink.unique {scheme' userinfo' rest' : Bytes} {colon' : Nat} (link : EncodedLink line scheme userinfo rest colon)
    (other : EncodedLink line scheme' userinfo' rest' colon') :
    scheme = scheme' ∧ userinfo = userinfo' ∧ rest = rest' ∧ colon = colon' := by
  obtain ⟨rfl, rfl, rfl⟩ := link.toLinkParts.unique other.toLinkParts
  exact ⟨rfl, rfl, rfl, Option.some.inj (link.first.symm.trans other.first)⟩

theorem linkParts_cases (line : Bytes) :
    (normalizeEncodedUserinfoSeparator line = some line ∧ ∀ scheme userinfo rest, ¬LinkParts line scheme userinfo rest) ∨
      ∃ scheme userinfo rest, LinkParts line scheme userinfo rest := by
  cases cut : cutAt (ascii "://") line with
  | none => exact .inl ⟨by rw [normalizeEncodedUserinfoSeparator, cut], fun _ _ _ parts => by simp [parts.cut] at cut⟩
  | some halves =>
    obtain ⟨scheme, body⟩ := halves
    by_cases kind : (equalFold scheme (ascii "ss") || equalFold scheme (ascii "tuic")) = true
    · by_cases sign : 0x40 ∈ body.takeWhile inAuthority
      · obtain ⟨userinfo, tail, whole, absent⟩ := exists_afterLast sign
        obtain ⟨after, split⟩ := List.takeWhile_prefix (l := body) inAuthority
        have inside : ∀ byte ∈ userinfo ++ 0x40 :: tail, inAuthority byte := by
          rw [← whole]
          exact List.all_eq_true.mp List.all_takeWhile
        refine .inr ⟨scheme, userinfo, tail ++ after, ?_, kind, fun byte there => inside byte (List.mem_append_left _ there), ?_⟩
        · rw [cut, ← split, whole]
          simp
        · have again := whole
          rw [← split, whole, List.append_assoc, List.takeWhile_append_of_pos
            (fun byte there => inside byte (List.mem_append_left _ there)), List.cons_append,
            List.takeWhile_cons_of_pos (by decide)] at again
          have tails := List.append_cancel_left again
          rw [List.cons.injEq] at tails
          rw [tails.2]
          exact absent
      · refine .inl ⟨?_, ?_⟩
        · rw [normalizeEncodedUserinfoSeparator, cut]
          simp only [Bool.or_eq_true] at kind
          have either : (!equalFold scheme (ascii "ss") && !equalFold scheme (ascii "tuic")) = false := by
            rcases kind with kind | kind <;> simp [kind]
          simp only [either, Bool.false_eq_true, if_false]
          rcases authority_cases body with ⟨none, all⟩ | ⟨stop, some, cutOff⟩
          · rw [← all] at sign
            simp only [none, Option.bind_eq_bind, Option.bind_some, lastIndexByte_eq_none sign]
          · simp only [some, cutOff, Option.bind_eq_bind, Option.bind_some, lastIndexByte_eq_none sign]
        · intro scheme' userinfo rest parts
          have cuts := cut.symm.trans parts.cut
          simp only [Option.some.injEq, Prod.mk.injEq] at cuts
          rw [cuts.2, parts.authority] at sign
          simp at sign
    · refine .inl ⟨?_, ?_⟩
      · rw [normalizeEncodedUserinfoSeparator, cut]
        simp only [Bool.or_eq_true, not_or, Bool.not_eq_true] at kind
        simp [kind]
      · intro scheme' userinfo rest parts
        have cuts := cut.symm.trans parts.cut
        simp only [Option.some.injEq, Prod.mk.injEq] at cuts
        rw [cuts.1] at kind
        exact kind parts.kind

theorem LinkParts.normalize_eq (parts : LinkParts line scheme userinfo rest) :
    normalizeEncodedUserinfoSeparator line =
      if 0x3a ∈ userinfo then some line
      else
        match index (toLower userinfo) (ascii "%3a") with
        | none => some line
        | some place => if place + 3 ≤ userinfo.length then some (withColon scheme userinfo rest place) else none := by
  have kind := parts.kind
  have either : (!equalFold scheme (ascii "ss") && !equalFold scheme (ascii "tuic")) = false := by
    rw [Bool.or_eq_true] at kind
    rcases kind with kind | kind <;> simp [kind]
  have info : ∀ tail, slice (userinfo ++ 0x40 :: tail) 0 userinfo.length = some userinfo := by
    intro tail
    simp [slice]
  have behind : slice (userinfo ++ 0x40 :: rest) userinfo.length (userinfo ++ 0x40 :: rest).length = some (0x40 :: rest) := by
    rw [slice, if_pos ⟨by simp, le_rfl⟩, List.take_length, List.drop_left]
  rw [normalizeEncodedUserinfoSeparator, parts.cut]
  simp only [either, Bool.false_eq_true, if_false]
  rcases authority_cases (userinfo ++ 0x40 :: rest) with ⟨none, all⟩ | ⟨stop, some, cutOff⟩
  case' inl =>
    have whole : rest = rest.takeWhile inAuthority := by
      rw [parts.authority] at all
      simpa using all
    have last : 0x40 ∉ rest := whole ▸ parts.last
    simp only [none, lastIndexByte_append last, info, Option.bind_eq_bind, Option.bind_some]
  case' inr =>
    simp only [some, cutOff, parts.authority, lastIndexByte_append parts.last, info, Option.bind_eq_bind, Option.bind_some]
  all_goals
    split
    · rfl
    · cases index (toLower userinfo) (ascii "%3a") with
      | none => rfl
      | some place =>
        simp only
        by_cases short : place + 3 ≤ userinfo.length
        · rw [behind]
          simp [slice, withColon, short, show place ≤ userinfo.length by omega]
        · rw [if_neg short]
          by_cases lower : place ≤ userinfo.length <;> simp [slice, lower, short]

theorem normalize_cases (line : Bytes) :
    (normalizeEncodedUserinfoSeparator line = some line ∧ ∀ scheme userinfo rest colon, ¬EncodedLink line scheme userinfo rest colon) ∨
      ∃ scheme userinfo rest colon, EncodedLink line scheme userinfo rest colon ∧
        normalizeEncodedUserinfoSeparator line =
          if (toLower (userinfo.take colon)).length + 3 ≤ userinfo.length then
            some (withColon scheme userinfo rest (toLower (userinfo.take colon)).length)
          else none := by
  rcases linkParts_cases line with ⟨same, none⟩ | ⟨scheme, userinfo, rest, parts⟩
  · exact .inl ⟨same, fun scheme userinfo rest colon link => none scheme userinfo rest link.toLinkParts⟩
  · have value := parts.normalize_eq
    rw [index_toLower] at value
    by_cases plain : 0x3a ∈ userinfo
    · rw [if_pos plain] at value
      refine .inl ⟨value, fun scheme' userinfo' rest' colon link => ?_⟩
      obtain ⟨-, rfl, -⟩ := parts.unique link.toLinkParts
      exact link.plain plain
    · rw [if_neg plain] at value
      cases first : encodedColon userinfo with
      | none =>
        rw [first] at value
        refine .inl ⟨value, fun scheme' userinfo' rest' colon link => ?_⟩
        obtain ⟨-, rfl, -⟩ := parts.unique link.toLinkParts
        have found := link.first
        rw [first] at found
        cases found
      | some colon =>
        rw [first] at value
        exact .inr ⟨scheme, userinfo, rest, colon, ⟨parts, plain, first⟩, value⟩

theorem encodedColon_short {text : Bytes} (found : encodedColon text = some colon) : colon + 3 ≤ text.length := by
  obtain ⟨letter, -, whole⟩ := encodedColon_spec found
  have lengths := congrArg List.length whole
  simp only [List.length_append, List.length_take, List.length_drop, List.length_cons, List.length_nil] at lengths
  omega

theorem LinkParts.line_eq (parts : LinkParts line scheme userinfo rest) :
    line = scheme ++ ascii "://" ++ (userinfo ++ 0x40 :: rest) := eq_of_cutAt parts.cut

theorem LinkParts.length_withColon (parts : LinkParts line scheme userinfo rest) {place : Nat}
    (short : place + 3 ≤ userinfo.length) : (withColon scheme userinfo rest place).length + 2 = line.length := by
  have mark : (ascii ":").length = 1 := by decide
  rw [parts.line_eq]
  simp only [withColon, List.length_append, List.length_take, List.length_drop, List.length_cons, mark]
  omega

def Replaced (line result : Bytes) : Prop :=
  ∃ scheme userinfo rest colon, LinkParts line scheme userinfo rest ∧ encodedColon userinfo = some colon ∧
    result = withColon scheme userinfo rest colon

def RightlyNormalized (line : Bytes) : Prop :=
  ∃ result, normalizeEncodedUserinfoSeparator line = some result ∧ (result = line ∨ Replaced line result)

def SameOffset (line : Bytes) : Prop :=
  ∀ scheme userinfo rest colon, EncodedLink line scheme userinfo rest colon → (toLower (userinfo.take colon)).length = colon

theorem rightlyNormalized_iff (line : Bytes) : RightlyNormalized line ↔ SameOffset line := by
  rcases normalize_cases line with ⟨same, none⟩ | ⟨scheme, userinfo, rest, colon, link, value⟩
  · exact iff_of_true ⟨line, same, .inl rfl⟩ fun _ _ _ _ link => absurd link (none _ _ _ _)
  · have short := encodedColon_short link.first
    constructor
    · rintro ⟨result, normal, kept⟩ scheme' userinfo' rest' colon' link'
      obtain ⟨rfl, rfl, rfl, rfl⟩ := link.unique link'
      rw [normal] at value
      split at value
      · rename_i room
        obtain rfl := Option.some.inj value
        have lengths := link.length_withColon room
        rcases kept with same | ⟨scheme', userinfo', rest', colon', parts, first, same⟩
        · rw [same] at lengths
          omega
        · obtain ⟨rfl, rfl, rfl⟩ := link.toLinkParts.unique parts
          obtain rfl := Option.some.inj (link.first.symm.trans first)
          have plain : ∀ place, 0x3a ∉ userinfo.take place := fun place there => link.plain (List.mem_of_mem_take there)
          have mark : ascii ":" = [0x3a] := by decide
          simp only [withColon, mark, List.append_assoc, List.append_cancel_left_eq, List.cons_append,
            List.nil_append] at same
          have fronts := congrArg List.length (append_mark_inj (plain _) (plain _) same).1
          simp only [List.length_take] at fronts
          omega
      · cases value
    · intro offset
      rw [offset scheme userinfo rest colon link, if_pos short] at value
      exact ⟨_, value, .inr ⟨scheme, userinfo, rest, colon, link.toLinkParts, link.first, rfl⟩⟩

end Links

section Breaks

theorem letter_ne_break (n : Nat) : stdEncoding.letter n ≠ 0x0a := by
  have other : ∀ {m : Nat}, m < 256 → m ≠ 10 → UInt8.ofNat m ≠ 0x0a := by
    intro m small ne same
    have numbers := congrArg UInt8.toNat same
    rw [UInt8.toNat_ofNat', Nat.mod_eq_of_lt small] at numbers
    exact ne numbers
  unfold Encoding.letter
  split
  · exact other (by omega) (by omega)
  · split
    · exact other (by omega) (by omega)
    · split
      · exact other (by omega) (by omega)
      · split <;> decide

theorem encodeToString_unbroken (text : Bytes) : 0x0a ∉ stdEncoding.encodeToString text := by
  induction text using Encoding.encodeToString.induct with
  | case1 => simp [Encoding.encodeToString]
  | case2 a => simp [Encoding.encodeToString, Ne.symm (letter_ne_break _)]
  | case3 a b => simp [Encoding.encodeToString, Ne.symm (letter_ne_break _)]
  | case4 a b c rest ih => simp [Encoding.encodeToString, Ne.symm (letter_ne_break _), ih]

theorem legacy_unbroken {limit : Option Nat} {line : Bytes} (legacy : (legacyVMess limit line).isSome) :
    0x0a ∉ normalizeLegacyShadowrocketVMess limit line := by
  obtain ⟨link, found⟩ := Option.isSome_iff_exists.mp legacy
  rw [normalizeLegacyShadowrocketVMess, found]
  simp only [List.mem_append, not_or]
  exact ⟨by decide, encodeToString_unbroken _⟩

theorem legacyVMess_withColon {line scheme userinfo rest : Bytes} (limit : Option Nat)
    (parts : LinkParts line scheme userinfo rest) (body : Bytes) :
    legacyVMess limit (scheme ++ ascii "://" ++ body) = none := by
  have present : ascii "://" ≠ [] := by decide
  have early := ((cutAt_eq_some_iff present).mp parts.cut).2
  by_cases starts : hasPrefix (scheme ++ ascii "://" ++ body) (ascii "vmess://") = true
  · obtain ⟨tail, whole⟩ := List.isPrefixOf_iff_prefix.mp starts
    have split : ascii "vmess://" = ascii "vmess" ++ ascii "://" := by decide
    have ours : cutAt (ascii "://") (scheme ++ ascii "://" ++ body) = some (scheme, body) := (cutAt_eq_some_iff present).mpr ⟨rfl, early⟩
    have other : cutAt (ascii "://") (scheme ++ ascii "://" ++ body) = some (ascii "vmess", tail) :=
      (cutAt_eq_some_iff present).mpr ⟨by rw [← whole, split], by decide⟩
    rw [ours, Option.some.injEq, Prod.mk.injEq] at other
    have kind := parts.kind
    rw [other.1] at kind
    exact absurd kind (by decide +kernel)
  · rw [legacyVMess, Bool.not_eq_true _ |>.mp starts]
    rfl

theorem withColon_eq (scheme userinfo rest : Bytes) (place : Nat) :
    withColon scheme userinfo rest place =
      scheme ++ ascii "://" ++ (userinfo.take place ++ ascii ":" ++ userinfo.drop (place + 3) ++ 0x40 :: rest) := by
  simp [withColon]

theorem mem_withColon {line scheme userinfo rest : Bytes} {colon : Nat} {byte : UInt8} (parts : LinkParts line scheme userinfo rest)
    (first : encodedColon userinfo = some colon) (other : byte ∉ ascii ":%3aA") :
    byte ∈ withColon scheme userinfo rest colon ↔ byte ∈ line := by
  have marks : ascii ":%3aA" = [0x3a, 0x25, 0x33, 0x61, 0x41] := by decide
  have mark : ascii ":" = [0x3a] := by decide
  rw [marks] at other
  simp only [List.mem_cons, List.not_mem_nil, or_false, not_or] at other
  obtain ⟨letter, kind, whole⟩ := encodedColon_spec first
  have absent : byte ≠ letter := by rcases kind with rfl | rfl <;> tauto
  have info : byte ∈ userinfo ↔ byte ∈ userinfo.take colon ∨ byte ∈ userinfo.drop (colon + 3) := by
    conv_lhs => rw [whole]
    simp [other, absent]
  rw [parts.line_eq, withColon_eq, mark]
  simp only [List.mem_append, List.mem_cons, List.not_mem_nil, or_false, info, other.1]

end Breaks

section Subscriptions

variable {α β : Type}

theorem count_marked [DecidableEq α] (mark : α) (parts : List (List α)) :
    (marked mark parts).count mark = parts.length + parts.flatten.count mark := by
  induction parts with
  | nil => rfl
  | cons part rest ih =>
    simp only [marked_cons, List.count_append, List.count_cons_self, ih, List.flatten_cons, List.length_cons]
    omega

theorem splitOn_intercalate_length [DecidableEq α] {mark : α} {parts : List (List α)} (present : parts ≠ []) :
    (([mark].intercalate parts).splitOn mark).length = parts.length ↔ ∀ part ∈ parts, mark ∉ part := by
  constructor
  · intro same part there inside
    have whole : [mark].intercalate parts ++ [mark] = marked mark parts := by
      obtain ⟨front, last, rfl⟩ := (List.eq_nil_or_concat parts).resolve_left present
      rw [List.concat_eq_append, intercalate_concat]
      simp [marked]
    have counts := congrArg (List.count mark) (marked_splitOn mark ([mark].intercalate parts))
    rw [whole, count_marked, count_marked, same] at counts
    have clean : (([mark].intercalate parts).splitOn mark).flatten.count mark = 0 := by
      rw [List.count_eq_zero, List.mem_flatten]
      rintro ⟨piece, piece_mem, hit⟩
      exact not_mem_of_mem_splitOn piece_mem hit
    have none : parts.flatten.count mark = 0 := by omega
    rw [List.count_eq_zero] at none
    exact none (List.mem_flatten.mpr ⟨part, there, inside⟩)
  · intro clean
    rw [List.splitOn_intercalate mark clean present]

variable {limit : Option Nat} {raw line : Bytes} {subscription : Bytes}

def trimmed (raw : Bytes) : Bytes := trimRight raw (ascii " \r")

def FullyEncoded (line : Bytes) : Prop :=
  contains line (ascii "://") = false ∧ ∃ decoded, queryUnescape line = some decoded ∧ contains decoded (ascii "://") = true

structure Ordinary (limit : Option Nat) (line : Bytes) : Prop where
  plain : ¬FullyEncoded line
  separate : ∀ scheme userinfo rest colon, ¬EncodedLink line scheme userinfo rest colon
  modern : legacyVMess limit line = none

structure RightlyPreprocessed (limit : Option Nat) (subscription : Bytes) : Prop where
  normalized : ∀ raw ∈ subscription.splitOn 0x0a, RightlyNormalized (unwrap (trimmed raw))
  result : ∃ output, preprocessSubscription limit subscription = some output ∧
    List.Forall₂ (fun raw out => Ordinary limit (trimmed raw) → out = trimmed raw)
      (subscription.splitOn 0x0a) (output.splitOn 0x0a)

structure Preservable (limit : Option Nat) (raw : Bytes) : Prop where
  offset : SameOffset (unwrap (trimmed raw))
  unbroken : 0x0a ∈ unwrap (trimmed raw) → (legacyVMess limit (unwrap (trimmed raw))).isSome

theorem unwrap_eq (plain : ¬FullyEncoded line) : unwrap line = line := by
  unfold unwrap
  split
  · rfl
  · rename_i inner
    split
    · rename_i decoded found
      split
      · rename_i link
        exact absurd ⟨by simpa using inner, decoded, found, link⟩ plain
      · rfl
    · rfl

theorem preprocessLine_eq (limit : Option Nat) (raw : Bytes) :
    preprocessLine limit raw =
      (normalizeEncodedUserinfoSeparator (unwrap (trimmed raw))).map (normalizeLegacyShadowrocketVMess limit) := by
  rw [preprocessLine, ← trimmed]
  split
  · rename_i empty
    rw [empty, unwrap_eq fun encoded => ?_]
    · rfl
    · obtain ⟨-, decoded, found, link⟩ := encoded
      obtain rfl := Option.some.inj (found : some [] = some decoded)
      exact absurd link (by decide)
  · cases normalizeEncodedUserinfoSeparator (unwrap (trimmed raw)) <;> rfl

theorem separated_breaks {separated : Bytes} (normal : normalizeEncodedUserinfoSeparator line = some separated)
    (right : RightlyNormalized line) :
    0x0a ∉ normalizeLegacyShadowrocketVMess limit separated ↔ (0x0a ∈ line → (legacyVMess limit line).isSome) := by
  obtain ⟨result, normal', kept⟩ := right
  obtain rfl := Option.some.inj (normal.symm.trans normal')
  rcases kept with rfl | ⟨scheme, userinfo, rest, colon, parts, first, rfl⟩
  · cases legacy : legacyVMess limit separated with
    | none => simp [normalizeLegacyShadowrocketVMess, legacy]
    | some link =>
      have unbroken : 0x0a ∉ normalizeLegacyShadowrocketVMess limit separated := legacy_unbroken (by simp [legacy])
      simpa using unbroken
  · have kept : normalizeLegacyShadowrocketVMess limit (withColon scheme userinfo rest colon) = withColon scheme userinfo rest colon := by
      rw [normalizeLegacyShadowrocketVMess, withColon_eq, legacyVMess_withColon limit parts]
    have modern : legacyVMess limit line = none := by
      rw [parts.line_eq]
      exact legacyVMess_withColon limit parts _
    rw [kept, mem_withColon parts first (by decide), modern]
    simp

theorem preprocessLine_breaks {out : Bytes} (value : preprocessLine limit raw = some out)
    (right : RightlyNormalized (unwrap (trimmed raw))) :
    0x0a ∉ out ↔ (0x0a ∈ unwrap (trimmed raw) → (legacyVMess limit (unwrap (trimmed raw))).isSome) := by
  rw [preprocessLine_eq, Option.map_eq_some_iff] at value
  obtain ⟨separated, normal, rfl⟩ := value
  exact separated_breaks normal right

theorem preprocessLine_ordinary {out : Bytes} (value : preprocessLine limit raw = some out)
    (ordinary : Ordinary limit (trimmed raw)) : out = trimmed raw := by
  rw [preprocessLine_eq, unwrap_eq ordinary.plain] at value
  rcases normalize_cases (trimmed raw) with ⟨same, -⟩ | ⟨_, _, _, _, link, -⟩
  · rw [same, Option.map_some, normalizeLegacyShadowrocketVMess, ordinary.modern] at value
    exact (Option.some.inj value).symm
  · exact absurd link (ordinary.separate _ _ _ _)

theorem preprocessLine_some (right : RightlyNormalized (unwrap (trimmed raw))) : ∃ out, preprocessLine limit raw = some out := by
  obtain ⟨separated, normal, -⟩ := right
  exact ⟨_, by rw [preprocessLine_eq, normal, Option.map_some]⟩

theorem exists_forall₂ {relation : α → β → Prop} {inputs : List α} (total : ∀ input ∈ inputs, ∃ output, relation input output) :
    ∃ outputs, List.Forall₂ relation inputs outputs := by
  induction inputs with
  | nil => exact ⟨[], .nil⟩
  | cons input rest ih =>
    obtain ⟨output, first⟩ := total input List.mem_cons_self
    obtain ⟨outputs, others⟩ := ih fun other there => total other (List.mem_cons_of_mem _ there)
    exact ⟨output :: outputs, .cons first others⟩

theorem forall₂_clean {outputs : List Bytes} {inputs : List Bytes}
    (values : List.Forall₂ (fun raw out => preprocessLine limit raw = some out) inputs outputs)
    (right : ∀ raw ∈ inputs, RightlyNormalized (unwrap (trimmed raw))) :
    (∀ out ∈ outputs, 0x0a ∉ out) ↔
      ∀ raw ∈ inputs, 0x0a ∈ unwrap (trimmed raw) → (legacyVMess limit (unwrap (trimmed raw))).isSome := by
  induction values with
  | nil => simp
  | cons value _ ih =>
    simp only [List.forall_mem_cons] at right ⊢
    rw [preprocessLine_breaks value right.1, ih right.2]

theorem rightlyPreprocessed_iff (limit : Option Nat) (subscription : Bytes) :
    RightlyPreprocessed limit subscription ↔ ∀ raw ∈ subscription.splitOn 0x0a, Preservable limit raw := by
  have inputs : subscription.splitOn 0x0a ≠ [] := List.splitOn_ne_nil _ _
  constructor
  · rintro ⟨normalized, output, whole, kept⟩ raw there
    rw [preprocessSubscription, Option.bind_eq_bind, Option.bind_eq_some_iff] at whole
    obtain ⟨outs, values, joined⟩ := whole
    rw [mapM_eq_some_iff] at values
    obtain rfl := Option.some.inj joined
    have present : outs ≠ [] := by
      rintro rfl
      exact inputs (List.forall₂_nil_right_iff.mp values)
    have clean : ∀ out ∈ outs, 0x0a ∉ out :=
      (splitOn_intercalate_length present).mp (kept.length_eq.symm.trans values.length_eq)
    exact ⟨(rightlyNormalized_iff _).mp (normalized raw there), (forall₂_clean values normalized).mp clean raw there⟩
  · intro preservable
    have normalized : ∀ raw ∈ subscription.splitOn 0x0a, RightlyNormalized (unwrap (trimmed raw)) := fun raw there =>
      (rightlyNormalized_iff _).mpr (preservable raw there).offset
    have total : ∀ raw ∈ subscription.splitOn 0x0a, ∃ out, preprocessLine limit raw = some out := fun raw there =>
      preprocessLine_some (normalized raw there)
    obtain ⟨outs, values⟩ := exists_forall₂ total
    have clean := (forall₂_clean values normalized).mpr fun raw there => (preservable raw there).unbroken
    have present : outs ≠ [] := by
      rintro rfl
      exact inputs (List.forall₂_nil_right_iff.mp values)
    refine ⟨normalized, [0x0a].intercalate outs, ?_, ?_⟩
    · rw [preprocessSubscription, mapM_eq_some_iff.mpr values]
      rfl
    · rw [List.splitOn_intercalate _ clean present]
      exact values.imp fun _ _ value ordinary => preprocessLine_ordinary value ordinary

theorem preprocess_right_iff (limit : Option Nat) :
    (∀ line, RightlyNormalized line ↔ SameOffset line) ∧
      ∀ subscription, RightlyPreprocessed limit subscription ↔
        ∀ raw ∈ subscription.splitOn 0x0a, Preservable limit raw :=
  ⟨rightlyNormalized_iff, rightlyPreprocessed_iff limit⟩

theorem preprocess_not_right :
    ¬RightlyNormalized (ascii "ss://" ++ [0xff] ++ ascii "%3A@host:1") ∧
      ¬RightlyPreprocessed none (ascii "ss%3A%2F%2Fa%0Ab") := by
  constructor
  · rintro ⟨result, normal, -⟩
    have stops : normalizeEncodedUserinfoSeparator (ascii "ss://" ++ [0xff] ++ ascii "%3A@host:1") = none := by decide +kernel
    rw [stops] at normal
    cases normal
  · intro right
    have there : ascii "ss%3A%2F%2Fa%0Ab" ∈ (ascii "ss%3A%2F%2Fa%0Ab").splitOn 0x0a := by decide +kernel
    have legacy := ((rightlyPreprocessed_iff _ _).mp right _ there).unbroken (by decide +kernel)
    exact absurd legacy (by decide +kernel)

end Subscriptions

end SubConverter.Bridge
