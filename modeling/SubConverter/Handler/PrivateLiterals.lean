import SubConverter.Handler.FetchGate

set_option autoImplicit false

namespace SubConverter.Handler

section Networks

-- The networks that public fetches must not reach, in terms of the four bytes.
def Quad.Private (quad : Quad) : Prop :=
  quad.a = 0 ∨ quad.a = 10 ∨ (quad.a = 100 ∧ 64 ≤ quad.b ∧ quad.b < 128) ∨ quad.a = 127 ∨
    (quad.a = 169 ∧ quad.b = 254) ∨ (quad.a = 172 ∧ 16 ≤ quad.b ∧ quad.b < 32) ∨ (quad.a = 192 ∧ quad.b = 168) ∨
    (quad.a = 198 ∧ (quad.b = 18 ∨ quad.b = 19)) ∨ 224 ≤ quad.a

instance (quad : Quad) : Decidable quad.Private := by unfold Quad.Private; infer_instance

theorem ipv4InCidr_iff {address network top : Nat} (bits : Nat) (word : address < 2 ^ 32) (positive : bits ≠ 0)
    (base : network = top * 2 ^ (32 - bits)) :
    ipv4InCidr address network bits = true ↔ address / 2 ^ (32 - bits) = top := by
  have masked : address &&& (0xffffffff <<< (32 - bits)) % 2 ^ 32 = address / 2 ^ (32 - bits) * 2 ^ (32 - bits) := by
    rw [← Nat.shiftRight_eq_div_pow, ← Nat.shiftLeft_eq]
    apply Nat.eq_of_testBit_eq
    intro i
    have ones : (0xffffffff : Nat) = 2 ^ 32 - 1 := rfl
    rw [Nat.testBit_and, Nat.testBit_mod_two_pow, Nat.testBit_shiftLeft, Nat.testBit_shiftLeft, Nat.testBit_shiftRight,
      ones, Nat.testBit_two_pow_sub_one]
    by_cases low : 32 - bits ≤ i
    · by_cases inside : i < 32
      · have near : i - (32 - bits) < 32 := by omega
        simp [low, inside, near, Nat.add_sub_cancel' low]
      · have zero : address.testBit i = false :=
          Nat.testBit_lt_two_pow (lt_of_lt_of_le word (Nat.pow_le_pow_right (by decide) (by omega)))
        simp [zero, Nat.add_sub_cancel' low]
    · simp [low]
  simp only [ipv4InCidr, if_neg positive, masked, beq_iff_eq, base]
  exact Nat.mul_left_inj (Nat.two_pow_pos _).ne'

theorem Quad.value_prefix {quad : Quad} (bytes : quad.a ≤ 255 ∧ quad.b ≤ 255 ∧ quad.c ≤ 255 ∧ quad.d ≤ 255) :
    quad.value < 2 ^ 32 ∧ quad.value / 2 ^ 28 = quad.a / 16 ∧ quad.value / 2 ^ 24 = quad.a ∧
      quad.value / 2 ^ 22 = quad.a * 4 + quad.b / 64 ∧ quad.value / 2 ^ 20 = quad.a * 16 + quad.b / 16 ∧
      quad.value / 2 ^ 17 = quad.a * 128 + quad.b / 2 ∧ quad.value / 2 ^ 16 = quad.a * 256 + quad.b := by
  obtain ⟨a, b, c, d⟩ := bytes
  simp only [Quad.value]
  refine ⟨?_, ?_, ?_, ?_, ?_, ?_, ?_⟩ <;> omega

theorem isBlockedIpv4_iff {text : Text} {quad : Quad} (read : inetPton4 text = some quad) :
    isBlockedIpv4 text = true ↔ quad.Private := by
  obtain ⟨-, -, -, bytes, parsed⟩ := spelled_of_inetPton4 read
  obtain ⟨word, by4, by8, by10, by12, by15, by16⟩ := Quad.value_prefix bytes
  have in4 : ∀ network top, network = top * 2 ^ 28 → (ipv4InCidr quad.value network 4 = true ↔ quad.a / 16 = top) := by
    intro network top base
    rw [ipv4InCidr_iff 4 word (by decide) base, by4]
  have in8 : ∀ network top, network = top * 2 ^ 24 → (ipv4InCidr quad.value network 8 = true ↔ quad.a = top) := by
    intro network top base
    rw [ipv4InCidr_iff 8 word (by decide) base, by8]
  have in10 : ∀ network top, network = top * 2 ^ 22 → (ipv4InCidr quad.value network 10 = true ↔ quad.a * 4 + quad.b / 64 = top) := by
    intro network top base
    rw [ipv4InCidr_iff 10 word (by decide) base, by10]
  have in12 : ∀ network top, network = top * 2 ^ 20 → (ipv4InCidr quad.value network 12 = true ↔ quad.a * 16 + quad.b / 16 = top) := by
    intro network top base
    rw [ipv4InCidr_iff 12 word (by decide) base, by12]
  have in15 : ∀ network top, network = top * 2 ^ 17 → (ipv4InCidr quad.value network 15 = true ↔ quad.a * 128 + quad.b / 2 = top) := by
    intro network top base
    rw [ipv4InCidr_iff 15 word (by decide) base, by15]
  have in16 : ∀ network top, network = top * 2 ^ 16 → (ipv4InCidr quad.value network 16 = true ↔ quad.a * 256 + quad.b = top) := by
    intro network top base
    rw [ipv4InCidr_iff 16 word (by decide) base, by16]
  have broadcast : quad.value = 0xffffffff → 224 ≤ quad.a := by omega
  obtain ⟨a, b, -, -⟩ := bytes
  simp only [isBlockedIpv4, parsed, blockedNetworks, List.any_cons, List.any_nil, Bool.or_false, Bool.or_eq_true,
    beq_iff_eq]
  rw [in8 0x00000000 0 (by norm_num), in8 0x0a000000 10 (by norm_num), in10 0x64400000 401 (by norm_num),
    in8 0x7f000000 127 (by norm_num), in16 0xa9fe0000 43518 (by norm_num), in12 0xac100000 2753 (by norm_num),
    in16 0xc0a80000 49320 (by norm_num), in15 0xc6120000 25353 (by norm_num), in4 0xe0000000 14 (by norm_num),
    in4 0xf0000000 15 (by norm_num)]
  have carrierGrade : quad.a * 4 + quad.b / 64 = 401 ↔ quad.a = 100 ∧ 64 ≤ quad.b ∧ quad.b < 128 := by omega
  have linkLocal : quad.a * 256 + quad.b = 43518 ↔ quad.a = 169 ∧ quad.b = 254 := by omega
  have private12 : quad.a * 16 + quad.b / 16 = 2753 ↔ quad.a = 172 ∧ 16 ≤ quad.b ∧ quad.b < 32 := by omega
  have private16 : quad.a * 256 + quad.b = 49320 ↔ quad.a = 192 ∧ quad.b = 168 := by omega
  have benchmark : quad.a * 128 + quad.b / 2 = 25353 ↔ quad.a = 198 ∧ (quad.b = 18 ∨ quad.b = 19) := by omega
  have high : (quad.a / 16 = 14 ∨ quad.a / 16 = 15) ∨ quad.value = 4294967295 ↔ 224 ≤ quad.a := by omega
  simp only [carrierGrade, linkLocal, private12, private16, benchmark, Quad.Private, ← high, or_assoc]

end Networks

section Recognisers

variable {host : Text} {quad : Quad} {groups : List Nat}

theorem mem_of_endsWith {suffix : Text} {c : Char} (ends : endsWith host suffix = true) (there : c ∈ suffix) : c ∈ host :=
  (List.isSuffixOf_iff_suffix.mp ends).subset there

theorem mem_of_startsWith {start : Text} {c : Char} (starts : startsWith host start = true) (there : c ∈ start) :
    c ∈ host :=
  (List.isPrefixOf_iff_prefix.mp starts).subset there

theorem no_reserved_name (noL : 'l' ∉ host) (noH : 'h' ∉ host) :
    isBlockedHostname host = false ∧ (decide (host = chars "localhost") || endsWith host (chars ".localhost")) = false := by
  have plain : decide (host = chars "localhost") = false := decide_eq_false fun same => noL (same ▸ by decide)
  have suffix : ∀ name, 'l' ∈ name ∨ 'h' ∈ name → endsWith host name = false := by
    intro name inside
    by_contra ends
    rw [Bool.not_eq_false] at ends
    rcases inside with inside | inside
    · exact noL (mem_of_endsWith ends inside)
    · exact noH (mem_of_endsWith ends inside)
  rw [isBlockedHostname, plain, suffix _ (.inl (by decide)), suffix _ (.inl (by decide)), suffix _ (.inl (by decide)),
    suffix _ (.inr (by decide))]
  exact ⟨rfl, rfl⟩

theorem dropWhile_of_none {text : Text} (plain : ∀ c ∈ text, isSpace c = false) : text.dropWhile isSpace = text := by
  cases text with
  | nil => rfl
  | cons c rest => simp [plain c List.mem_cons_self]

theorem trimWhitespace_of_none (plain : ∀ c ∈ host, isSpace c = false) : trimWhitespace host = host := by
  rw [trimWhitespace, strip, dropWhile_of_none plain, dropWhile_of_none (by simpa using plain), List.reverse_reverse]

theorem not_isSpace_of_isHex {c : Char} (hex : isHex c = true) : isSpace c = false := by
  by_contra space
  simp only [isSpace, decide_eq_true_eq, Bool.not_eq_false, List.mem_cons, List.not_mem_nil, or_false] at space
  rcases space with rfl | rfl | rfl | rfl | rfl | rfl <;> revert hex <;> decide

structure LiteralLetters (host : Text) : Prop where
  all : ∀ c ∈ host, isHex c = true ∨ c = ':' ∨ c = '.'
  present : host ≠ []
  short : host.length ≤ 45

theorem LiteralLetters.not_mem (letters : LiteralLetters host) {c : Char} (hex : isHex c = false) (colon : c ≠ ':')
    (dot : c ≠ '.') : c ∉ host := by
  intro there
  rcases letters.all c there with digit | same | same
  · exact ne_of_isHex digit hex rfl
  · exact colon same
  · exact dot same

theorem LiteralLetters.trim (letters : LiteralLetters host) : trimWhitespace host = host := by
  apply trimWhitespace_of_none
  intro c there
  rcases letters.all c there with digit | rfl | rfl
  · exact not_isSpace_of_isHex digit
  · rfl
  · rfl

theorem LiteralLetters.parse (letters : LiteralLetters host) :
    (trimWhitespace host = [] ∨ 45 < (trimWhitespace host).length ∨ '%' ∈ trimWhitespace host) ↔ False := by
  rw [letters.trim]
  have percent := letters.not_mem (c := '%') (by decide) (by decide) (by decide)
  have short := letters.short
  simp only [letters.present, percent, or_false, false_or, iff_false]
  omega

theorem LiteralLetters.cString (letters : LiteralLetters host) : cString (trimWhitespace host) = host := by
  rw [letters.trim, Handler.cString, List.takeWhile_eq_self_iff]
  intro c there
  have differs : c ≠ '\x00' := by
    rintro rfl
    exact letters.not_mem (by decide) (by decide) (by decide) there
  simpa using differs

theorem LiteralLetters.no_reserved_name (letters : LiteralLetters host) :
    isBlockedHostname host = false ∧ (decide (host = chars "localhost") || endsWith host (chars ".localhost")) = false :=
  Handler.no_reserved_name (letters.not_mem (by decide) (by decide) (by decide))
    (letters.not_mem (by decide) (by decide) (by decide))

theorem literalLetters_ipv4 (read : inetPton4 host = some quad) : LiteralLetters host := by
  obtain ⟨digits, dot, short, -, -⟩ := spelled_of_inetPton4 read
  refine ⟨fun c there => ?_, List.ne_nil_of_mem dot, by omega⟩
  rcases digits c there with digit | same
  · exact .inl (isHex_of_isDigit digit)
  · exact .inr (.inr same)

theorem literalLetters_ipv6 (read : inetPton6 host = some groups) : LiteralLetters host := by
  obtain ⟨-, letters, short, ⟨first, rest, whole, -⟩, -⟩ := spelled_of_inetPton6 read
  exact ⟨letters, by simp [whole], short⟩

theorem no_colon_of_inetPton4 (read : inetPton4 host = some quad) : ':' ∉ host := by
  intro there
  rcases (spelled_of_inetPton4 read).digits _ there with digit | same
  · cases digit
  · cases same

theorem isBlockedIpv4_colon (colon : ':' ∈ host) : isBlockedIpv4 host = false := by
  have plain : isIPv4 host = false := by
    by_contra dotted
    rw [Bool.not_eq_false] at dotted
    rcases isIPv4_digits dotted _ colon with digit | same
    · cases digit
    · cases same
  simp [isBlockedIpv4, parseIpv4Address, plain]

theorem isBlockedIpv4_no_dot (plain : '.' ∉ host) : isBlockedIpv4 host = false := by
  have undotted : isIPv4 host = false := by
    by_contra dotted
    rw [Bool.not_eq_false] at dotted
    exact plain (isIPv4_dot dotted)
  simp [isBlockedIpv4, parseIpv4Address, undotted]

def mappedQuad (groups : List Nat) : Option Quad :=
  if groups.take 6 = [0, 0, 0, 0, 0, 0xffff] then
    some ⟨groups.getD 6 0 / 256, groups.getD 6 0 % 256, groups.getD 7 0 / 256, groups.getD 7 0 % 256⟩
  else none

theorem classifyLoopbackHost_ipv4 (read : inetPton4 host = some quad) :
    classifyLoopbackHost host ≠ .none ↔ quad.a = 127 := by
  have letters := literalLetters_ipv4 read
  have noColon := no_colon_of_inetPton4 read
  have address : parseAddress host = some ⟨.ipv4, [quad.a, quad.b, quad.c, quad.d] ++ List.replicate 12 0⟩ := by
    simp only [parseAddress, letters.parse, if_false]
    rw [letters.cString, read]
  rw [classifyLoopbackHost, letters.no_reserved_name.2, address]
  by_cases loopback : quad.a = 127 <;> simp [loopback, noColon]

theorem classifyLoopbackHost_ipv6 (unread : inetPton4 host = none) (read : inetPton6 host = some groups) :
    classifyLoopbackHost host ≠ .none ↔
      (∃ quad, mappedQuad groups = some quad ∧ quad.a = 127) ∨ groups = [0, 0, 0, 0, 0, 0, 0, 1] := by
  have letters := literalLetters_ipv6 read
  have eight := (spelled_of_inetPton6 read).eight
  have address : parseAddress host =
      if isMappedIpv4 (groupBytes groups) then some ⟨.ipv4, (groupBytes groups).drop 12 ++ List.replicate 12 0⟩
      else some ⟨.ipv6, groupBytes groups⟩ := by
    simp only [parseAddress, letters.parse, if_false]
    rw [letters.cString, unread, read]
  rw [classifyLoopbackHost, letters.no_reserved_name.2, address]
  match groups, eight with
  | [g0, g1, g2, g3, g4, g5, g6, g7], _ =>
    have mapped : isMappedIpv4 (groupBytes [g0, g1, g2, g3, g4, g5, g6, g7]) = true ↔
        [g0, g1, g2, g3, g4, g5] = [0, 0, 0, 0, 0, 0xffff] := by
      simp [isMappedIpv4, groupBytes]
      omega
    by_cases same : [g0, g1, g2, g3, g4, g5] = [0, 0, 0, 0, 0, 0xffff]
    · rw [if_pos (mapped.mpr same)]
      simp only [List.cons.injEq, and_true] at same
      obtain ⟨rfl, rfl, rfl, rfl, rfl, rfl⟩ := same
      by_cases loopback : g6 / 256 = 127 <;> by_cases colon : ':' ∈ host <;>
        simp [mappedQuad, groupBytes, loopback, colon]
    · have unmapped : mappedQuad [g0, g1, g2, g3, g4, g5, g6, g7] = none := by simpa [mappedQuad] using same
      rw [if_neg (fun hit => same (mapped.mp hit)), unmapped]
      by_cases one : g7 % 256 = 1 <;> simp [groupBytes, one] <;> omega

end Recognisers

section FirstGroup

variable {host first : Text} {groups : List Nat} {n : Nat}

theorem hexDigit_lower {c : Char} (hex : isHex c = true) (lower : c.toLower = c) :
    (48 ≤ c.toNat ∧ c.toNat ≤ 57 ∧ (hexDigit c).getD 0 = c.toNat - 48) ∨
      (97 ≤ c.toNat ∧ c.toNat ≤ 102 ∧ (hexDigit c).getD 0 = c.toNat - 87) := by
  have order : ∀ {x y : Char}, x ≤ y ↔ x.toNat ≤ y.toNat := fun {x y} => Iff.rfl
  have number : ∀ {x y : Char}, x = y ↔ x.toNat = y.toNat := fun {x y} => Char.toNat_inj.symm
  simp only [isHex, hexDigit, order, Char.reduceToNat] at hex ⊢
  by_cases decimal : 48 ≤ c.toNat ∧ c.toNat ≤ 57
  · simp [decimal]
  · by_cases letter : 97 ≤ c.toNat ∧ c.toNat ≤ 102
    · simp [decimal, letter]
    · by_cases upper : 65 ≤ c.toNat ∧ c.toNat ≤ 70
      · have cases' : c = 'A' ∨ c = 'B' ∨ c = 'C' ∨ c = 'D' ∨ c = 'E' ∨ c = 'F' := by
          simp only [number, Char.reduceToNat]
          omega
        rcases cases' with rfl | rfl | rfl | rfl | rfl | rfl <;> revert lower <;> decide
      · simp [decimal, letter, upper] at hex

theorem hexGroup_fc (read : hexGroup first = some n) (lower : toLower first = first) :
    (n / 2 ^ 9 = 126 → startsWith first ['f', 'c'] = true ∨ startsWith first ['f', 'd'] = true) ∧
      (startsWith first ['f', 'c'] = true ∨ startsWith first ['f', 'd'] = true → 0 < n ∧ n / 2 ^ 6 ≠ 1018) ∧
      (first = chars "fe80" ↔ n = 0xfe80) := by
  obtain ⟨present, short, hex, rfl⟩ := hexGroup_spec read
  have number : ∀ {x y : Char}, x = y ↔ x.toNat = y.toNat := fun {x y} => Char.toNat_inj.symm
  have lowered : ∀ c ∈ first, c.toLower = c := List.map_inj_left.mp (lower.trans (List.map_id first).symm)
  match first, present, short, hex, lowered with
  | [a], _, _, hex, lowered =>
    have digitA := hexDigit_lower (hex a (by simp)) (lowered a (by simp))
    simp [hexValue, startsWith, chars]
    omega
  | [a, b], _, _, hex, lowered =>
    have digitA := hexDigit_lower (hex a (by simp)) (lowered a (by simp))
    have digitB := hexDigit_lower (hex b (by simp)) (lowered b (by simp))
    simp [hexValue, startsWith, chars, number]
    omega
  | [a, b, c], _, _, hex, lowered =>
    have digitA := hexDigit_lower (hex a (by simp)) (lowered a (by simp))
    have digitB := hexDigit_lower (hex b (by simp)) (lowered b (by simp))
    have digitC := hexDigit_lower (hex c (by simp)) (lowered c (by simp))
    simp [hexValue, startsWith, chars, number]
    omega
  | [a, b, c, d], _, _, hex, lowered =>
    have digitA := hexDigit_lower (hex a (by simp)) (lowered a (by simp))
    have digitB := hexDigit_lower (hex b (by simp)) (lowered b (by simp))
    have digitC := hexDigit_lower (hex c (by simp)) (lowered c (by simp))
    have digitD := hexDigit_lower (hex d (by simp)) (lowered d (by simp))
    simp [hexValue, startsWith, chars, number]
    omega

structure FirstGroup (host : Text) (groups : List Nat) : Prop where
  uniqueLocal : groups.getD 0 0 / 2 ^ 9 = 126 → startsWith host ['f', 'c'] = true ∨ startsWith host ['f', 'd'] = true
  other : startsWith host ['f', 'c'] = true ∨ startsWith host ['f', 'd'] = true →
    0 < groups.getD 0 0 ∧ groups.getD 0 0 / 2 ^ 6 ≠ 1018
  linkLocal : startsWith host (chars "fe80:") = true ↔ groups.getD 0 0 = 0xfe80

theorem startsWith_two (first rest : Text) {a b : Char} (plain : a ≠ ':') (plain' : b ≠ ':') :
    startsWith (first ++ ':' :: rest) [a, b] = startsWith first [a, b] := by
  match first with
  | [] => simp [startsWith, List.isPrefixOf, plain]
  | [c] => simp [startsWith, List.isPrefixOf, plain']
  | c :: d :: more => simp [startsWith, List.isPrefixOf]

theorem startsWith_colon {rest group : Text} (plain : ':' ∉ first) (plain' : ':' ∉ group) :
    startsWith (first ++ ':' :: rest) (group ++ [':']) = true ↔ first = group := by
  rw [startsWith, List.isPrefixOf_iff_prefix]
  constructor
  · rintro ⟨tail, whole⟩
    rw [List.append_assoc, List.singleton_append] at whole
    exact (append_mark_inj plain' plain whole).1.symm
  · rintro rfl
    exact ⟨rest, by simp⟩

theorem firstGroup_of_spelled (lower : toLower host = host) (spelled : Spelled6 host groups) : FirstGroup host groups := by
  obtain ⟨first, rest, rfl, reads⟩ := spelled.first
  obtain ⟨head, others, rfl⟩ : ∃ head others, groups = head :: others :=
    List.exists_cons_of_ne_nil (by rintro rfl; cases spelled.eight)
  have lowerFirst : toLower first = first := by
    have parts : toLower first ++ toLower (':' :: rest) = first ++ ':' :: rest := by
      rw [← lower]
      simp [toLower]
    exact (List.append_inj parts (by simp [toLower])).1
  have fc : startsWith (first ++ ':' :: rest) ['f', 'c'] = startsWith first ['f', 'c'] :=
    startsWith_two first rest (by decide) (by decide)
  have fd : startsWith (first ++ ':' :: rest) ['f', 'd'] = startsWith first ['f', 'd'] :=
    startsWith_two first rest (by decide) (by decide)
  simp only [List.head?_cons, Option.some.injEq] at reads
  rcases reads with ⟨rfl, rfl⟩ | read
  · refine ⟨by simp, ?_, ?_⟩
    · rw [fc, fd]
      simp [startsWith]
    · simp [startsWith, chars]
  · obtain ⟨unique, other, link⟩ := hexGroup_fc read lowerFirst
    have plain : ':' ∉ first := fun there => ne_of_isHex ((hexGroup_spec read).2.2.1 _ there) (by decide) rfl
    refine ⟨?_, ?_, ?_⟩
    · rw [fc, fd]
      exact unique
    · rw [fc, fd]
      exact other
    · rw [List.getD_cons_zero, ← link]
      have plain' : ':' ∉ chars "fe80" := by decide
      exact startsWith_colon plain plain'

end FirstGroup

section Literals

variable {host : Text} {quad : Quad} {groups : List Nat}

def dottedTail (host : Text) : Option Quad := (afterLast ':' host).bind inetPton4

theorem dottedTail_spec (spelled : Spelled6 host groups) :
    (∃ tail, afterLast ':' host = some tail ∧
      (isBlockedIpv4 tail = true ↔ ∃ quad, dottedTail host = some quad ∧ quad.Private)) ∧
      ('.' ∉ host → dottedTail host = none) ∧
      ('.' ∈ host → ∃ quad, dottedTail host = some quad ∧ groups.drop 6 = quad.groups ∧ quad.b ≤ 255 ∧ quad.d ≤ 255) := by
  obtain ⟨before, tail, rfl, plain, last⟩ := spelled.last
  have cut := afterLast_append plain before
  have undotted : '.' ∉ before ++ ':' :: tail → inetPton4 tail = none := by
    intro noDot
    by_contra read
    obtain ⟨quad, read⟩ := Option.ne_none_iff_exists'.mp read
    exact noDot (by simp [(spelled_of_inetPton4 read).dot])
  simp only [dottedTail, cut, Option.bind_some]
  refine ⟨⟨tail, rfl, ?_⟩, undotted, ?_⟩
  · rcases last with noDot | ⟨quad, read, -⟩
    · have tailPlain : '.' ∉ tail := fun there => noDot (by simp [there])
      simp [isBlockedIpv4_no_dot tailPlain, undotted noDot]
    · simp [isBlockedIpv4_iff read, read]
  · intro dot
    obtain ⟨quad, read, low⟩ := last.resolve_left (fun noDot => noDot dot)
    obtain ⟨-, b, -, d⟩ := (spelled_of_inetPton4 read).bytes
    exact ⟨quad, read, low, b, d⟩

theorem isPrivateHost_ipv4 (lower : toLower host = host) (read : inetPton4 host = some quad) :
    isPrivateHost host = true ↔ quad.Private := by
  have letters := literalLetters_ipv4 read
  have noColon := no_colon_of_inetPton4 read
  have noF : 'f' ∉ host := by
    intro there
    rcases (spelled_of_inetPton4 read).digits _ there with digit | same
    · cases digit
    · cases same
  have starts : ∀ group, 'f' ∈ group → startsWith host group = false := by
    intro group inside
    by_contra hit
    exact noF (mem_of_startsWith (by simpa using hit) inside)
  have notV6 : isBlockedIpv6 host = false := by
    have double : host ≠ chars "::" ∧ host ≠ chars "::1" :=
      ⟨fun same => noColon (same ▸ by decide), fun same => noColon (same ▸ by decide)⟩
    simp only [isBlockedIpv6, letters.trim, lower, double, afterLast_eq_none noColon]
    rw [starts _ (by decide), starts _ (by decide), starts _ (by simp), starts _ (by simp)]
    simp
  have loopback := classifyLoopbackHost_ipv4 read
  simp only [isPrivateHost, letters.no_reserved_name.1, isBlockedIpAddress, notV6, Bool.false_and, Bool.or_false,
    Bool.false_eq_true, if_false, Bool.or_eq_true, decide_eq_true_eq, loopback, isBlockedIpv4_iff read]
  exact or_iff_right_of_imp fun same => by simp [Quad.Private, same]

def Recognised (host : Text) (groups : List Nat) : Prop :=
  (∃ quad, mappedQuad groups = some quad ∧ quad.a = 127) ∨ groups = [0, 0, 0, 0, 0, 0, 0, 1] ∨ host = chars "::" ∨
    groups.getD 0 0 = 0xfe80 ∨ startsWith host ['f', 'c'] = true ∨ startsWith host ['f', 'd'] = true ∨
    ∃ quad, dottedTail host = some quad ∧ quad.Private

theorem isPrivateHost_ipv6 (lower : toLower host = host) (unread : inetPton4 host = none)
    (read : inetPton6 host = some groups) : isPrivateHost host = true ↔ Recognised host groups := by
  have letters := literalLetters_ipv6 read
  have spelled := spelled_of_inetPton6 read
  have colon : ':' ∈ host := by
    obtain ⟨first, rest, whole, -⟩ := spelled.first
    simp [whole]
  have loopback := classifyLoopbackHost_ipv6 unread read
  obtain ⟨⟨tail, cut, tailBlocked⟩, -⟩ := dottedTail_spec spelled
  have link := (firstGroup_of_spelled lower spelled).linkLocal
  have one : host = chars "::1" → groups = [0, 0, 0, 0, 0, 0, 0, 1] := by
    rintro rfl
    have value : inetPton6 (chars "::1") = some [0, 0, 0, 0, 0, 0, 0, 1] := by decide
    rw [value] at read
    exact (Option.some.inj read).symm
  have double : startsWith host (chars "fe80::") = true → startsWith host (chars "fe80:") = true := by
    intro starts
    obtain ⟨rest, whole⟩ := List.isPrefixOf_iff_prefix.mp starts
    exact List.isPrefixOf_iff_prefix.mpr ⟨':' :: rest, by rw [← whole]; rfl⟩
  have blocked : isBlockedIpv6 host = true ↔ host = chars "::" ∨ host = chars "::1" ∨
      startsWith host (chars "fe80:") = true ∨ startsWith host ['f', 'c'] = true ∨ startsWith host ['f', 'd'] = true ∨
      isBlockedIpv4 tail = true := by
    simp only [isBlockedIpv6, letters.trim, lower, cut]
    grind
  simp only [isPrivateHost, letters.no_reserved_name.1, isBlockedIpAddress, Bool.false_and, Bool.or_false,
    Bool.false_eq_true, if_false, Bool.or_eq_true, decide_eq_true_eq, loopback, isBlockedIpv4_colon colon,
    false_or, blocked, tailBlocked, link, Recognised]
  grind

inductive Literal where
  | ipv4 (quad : Quad)
  | ipv6 (groups : List Nat)

def literalOf (host : Text) : Option Literal :=
  match inetPton4 host with
  | some quad => some (.ipv4 quad)
  | none => (inetPton6 host).map .ipv6

def Literal.Private : Literal → Prop
  | .ipv4 quad => quad.Private
  | .ipv6 groups =>
    (∃ quad, mappedQuad groups = some quad ∧ quad.Private) ∨ groups = [0, 0, 0, 0, 0, 0, 0, 0] ∨
      groups = [0, 0, 0, 0, 0, 0, 0, 1] ∨ groups.getD 0 0 / 2 ^ 6 = 0xfe80 / 2 ^ 6 ∨
      groups.getD 0 0 / 2 ^ 9 = 0xfc00 / 2 ^ 9

inductive Misread (host : Text) : Literal → Prop
  -- The unspecified address in another form than `::`, without a dotted part.
  | unspecified (other : host ≠ chars "::") (hexadecimal : '.' ∉ host) : Misread host (.ipv6 [0, 0, 0, 0, 0, 0, 0, 0])
  -- A mapped private address, other than loopback, in hexadecimal form.
  | mapped {groups : List Nat} {quad : Quad} (stands : mappedQuad groups = some quad) (isPrivate : quad.Private)
      (loopback : quad.a ≠ 127) (hexadecimal : '.' ∉ host) : Misread host (.ipv6 groups)
  -- A link-local address whose first group is not `fe80`.
  | linkLocal {groups : List Nat} (range : groups.getD 0 0 / 2 ^ 6 = 0xfe80 / 2 ^ 6) (other : groups.getD 0 0 ≠ 0xfe80)
      (tail : ¬∃ quad, dottedTail host = some quad ∧ quad.Private) : Misread host (.ipv6 groups)
  -- A public address whose first group begins with `fc` or `fd` because its leading zeros are left out.
  | shortGroup {groups : List Nat} (isPublic : ¬(Literal.ipv6 groups).Private)
      (starts : startsWith host ['f', 'c'] = true ∨ startsWith host ['f', 'd'] = true) : Misread host (.ipv6 groups)
  -- A public address that ends in a private dotted quad without being mapped.
  | embedded {groups : List Nat} {quad : Quad} (isPublic : ¬(Literal.ipv6 groups).Private)
      (tail : dottedTail host = some quad) (isPrivate : quad.Private) : Misread host (.ipv6 groups)

theorem mappedQuad_spec {groups : List Nat} {quad : Quad} (mapped : mappedQuad groups = some quad) :
    groups.take 6 = [0, 0, 0, 0, 0, 0xffff] ∧ groups.getD 0 0 = 0 ∧
      quad = ⟨groups.getD 6 0 / 256, groups.getD 6 0 % 256, groups.getD 7 0 / 256, groups.getD 7 0 % 256⟩ := by
  rw [mappedQuad, Option.ite_none_right_eq_some] at mapped
  obtain ⟨same, value⟩ := mapped
  refine ⟨same, ?_, (Option.some.inj value).symm⟩
  match groups with
  | [] => rfl
  | head :: rest => simpa using congrArg (fun low => low.getD 0 0) same

theorem groups_of_double (read : inetPton6 host = some groups) (same : host = chars "::") :
    groups = [0, 0, 0, 0, 0, 0, 0, 0] := by
  subst same
  have value : inetPton6 (chars "::") = some [0, 0, 0, 0, 0, 0, 0, 0] := by decide
  rw [value] at read
  exact (Option.some.inj read).symm

theorem dottedTail_mapped (spelled : Spelled6 host groups) (mapped : mappedQuad groups = some quad) (dot : '.' ∈ host) :
    dottedTail host = some quad := by
  obtain ⟨-, -, last⟩ := dottedTail_spec spelled
  obtain ⟨tail, read, low, b, d⟩ := last dot
  obtain ⟨-, -, rfl⟩ := mappedQuad_spec mapped
  match groups, spelled.eight with
  | [g0, g1, g2, g3, g4, g5, g6, g7], _ =>
    simp only [List.drop_succ_cons, List.drop_zero, Quad.groups, List.cons.injEq, and_true] at low
    obtain ⟨rfl, rfl⟩ := low
    rw [read]
    obtain ⟨a, b, c, d⟩ := tail
    simp only [Option.some.injEq, Quad.mk.injEq, List.getD_cons_succ, List.getD_cons_zero] at *
    omega

theorem dottedTail_zero (spelled : Spelled6 host [0, 0, 0, 0, 0, 0, 0, 0]) (dot : '.' ∈ host) :
    ∃ quad, dottedTail host = some quad ∧ quad.Private := by
  obtain ⟨-, -, last⟩ := dottedTail_spec spelled
  obtain ⟨tail, read, low, -, -⟩ := last dot
  have zero : tail.a * 256 + tail.b = 0 := by
    have both : [0, 0] = [tail.a * 256 + tail.b, tail.c * 256 + tail.d] := low
    simp only [List.cons.injEq] at both
    exact both.1.symm
  exact ⟨tail, read, .inl (by omega)⟩

theorem not_recognised_of_misread (lower : toLower host = host) (read : inetPton6 host = some groups)
    (isPrivate : (Literal.ipv6 groups).Private) (misread : Misread host (.ipv6 groups)) : ¬Recognised host groups := by
  have spelled := spelled_of_inetPton6 read
  have first := firstGroup_of_spelled lower spelled
  obtain ⟨-, plain, -⟩ := dottedTail_spec spelled
  have double := groups_of_double read
  cases misread with
  | unspecified other hexadecimal =>
    rintro (⟨quad, mapped, -⟩ | same | same | same | starts | starts | ⟨quad, tail, -⟩)
    · exact absurd (mappedQuad_spec mapped).1 (by decide)
    · exact absurd same (by decide)
    · exact other same
    · exact absurd same (by decide)
    · exact absurd (first.other (.inl starts)).1 (by decide)
    · exact absurd (first.other (.inr starts)).1 (by decide)
    · rw [plain hexadecimal] at tail
      cases tail
  | mapped stands privateQuad loopback hexadecimal =>
    obtain ⟨low, head, -⟩ := mappedQuad_spec stands
    rintro (⟨quad, mapped, same⟩ | same | same | same | starts | starts | ⟨quad, tail, -⟩)
    · rw [stands] at mapped
      obtain rfl := Option.some.inj mapped
      exact loopback same
    · rw [same] at low
      exact absurd low (by decide)
    · rw [double same] at low
      exact absurd low (by decide)
    · omega
    · have positive := (first.other (.inl starts)).1
      omega
    · have positive := (first.other (.inr starts)).1
      omega
    · rw [plain hexadecimal] at tail
      cases tail
  | linkLocal range other noTail =>
    rintro (⟨quad, mapped, -⟩ | same | same | same | starts | starts | tail)
    · have head := (mappedQuad_spec mapped).2.1
      omega
    · rw [same] at range
      exact absurd range (by decide)
    · rw [double same] at range
      exact absurd range (by decide)
    · exact other same
    · exact (first.other (.inl starts)).2 range
    · exact (first.other (.inr starts)).2 range
    · exact noTail tail
  | shortGroup isPublic => exact absurd isPrivate isPublic
  | embedded isPublic => exact absurd isPrivate isPublic

theorem recognised_iff (lower : toLower host = host) (read : inetPton6 host = some groups) :
    (Recognised host groups ↔ (Literal.ipv6 groups).Private) ↔ ¬Misread host (.ipv6 groups) := by
  have spelled := spelled_of_inetPton6 read
  have first := firstGroup_of_spelled lower spelled
  constructor
  · intro agrees misread
    by_cases isPrivate : (Literal.ipv6 groups).Private
    · exact not_recognised_of_misread lower read isPrivate misread (agrees.mpr isPrivate)
    · cases misread with
      | unspecified => exact isPrivate (.inr (.inl rfl))
      | mapped stands privateQuad => exact isPrivate (.inl ⟨_, stands, privateQuad⟩)
      | linkLocal range => exact isPrivate (.inr (.inr (.inr (.inl range))))
      | shortGroup _ starts =>
        refine isPrivate (agrees.mp ?_)
        rcases starts with starts | starts
        · exact .inr (.inr (.inr (.inr (.inl starts))))
        · exact .inr (.inr (.inr (.inr (.inr (.inl starts)))))
      | embedded _ tail privateQuad =>
        exact isPrivate (agrees.mp (.inr (.inr (.inr (.inr (.inr (.inr ⟨_, tail, privateQuad⟩)))))))
  · intro sound
    constructor
    · rintro (⟨quad, mapped, same⟩ | same | same | same | starts | starts | ⟨quad, tail, privateQuad⟩)
      · exact .inl ⟨quad, mapped, by simp [Quad.Private, same]⟩
      · exact .inr (.inr (.inl same))
      · exact .inr (.inl (groups_of_double read same))
      · exact .inr (.inr (.inr (.inl (by rw [same]))))
      · by_contra isPublic
        exact sound (.shortGroup isPublic (.inl starts))
      · by_contra isPublic
        exact sound (.shortGroup isPublic (.inr starts))
      · by_contra isPublic
        exact sound (.embedded isPublic tail privateQuad)
    · rintro (⟨quad, mapped, privateQuad⟩ | rfl | same | range | range)
      · by_cases loopback : quad.a = 127
        · exact .inl ⟨quad, mapped, loopback⟩
        · have dot : '.' ∈ host := by
            by_contra hexadecimal
            exact sound (.mapped mapped privateQuad loopback hexadecimal)
          have tail := dottedTail_mapped spelled mapped dot
          exact .inr (.inr (.inr (.inr (.inr (.inr ⟨quad, tail, privateQuad⟩)))))
      · by_cases same : host = chars "::"
        · exact .inr (.inr (.inl same))
        · have dot : '.' ∈ host := by
            by_contra hexadecimal
            exact sound (.unspecified same hexadecimal)
          exact .inr (.inr (.inr (.inr (.inr (.inr (dottedTail_zero spelled dot))))))
      · exact .inr (.inl same)
      · by_cases same : groups.getD 0 0 = 0xfe80
        · exact .inr (.inr (.inr (.inl same)))
        · have tail : ∃ quad, dottedTail host = some quad ∧ quad.Private := by
            by_contra noTail
            exact sound (.linkLocal range same noTail)
          exact .inr (.inr (.inr (.inr (.inr (.inr tail)))))
      · rcases first.uniqueLocal range with starts | starts
        · exact .inr (.inr (.inr (.inr (.inl starts))))
        · exact .inr (.inr (.inr (.inr (.inr (.inl starts)))))

theorem isPrivateHost_literal {literal : Literal} (lower : toLower host = host) (read : literalOf host = some literal) :
    (isPrivateHost host = true ↔ literal.Private) ↔ ¬Misread host literal := by
  unfold literalOf at read
  split at read
  case h_1 quad dotted =>
    obtain rfl := Option.some.inj read
    have none' : ¬Misread host (.ipv4 quad) := by
      intro misread
      cases misread
    simp [isPrivateHost_ipv4 lower dotted, Literal.Private, none']
  case h_2 undotted =>
    obtain ⟨groups, grouped, rfl⟩ := Option.map_eq_some_iff.mp read
    rw [isPrivateHost_ipv6 lower undotted grouped]
    exact recognised_iff lower grouped

end Literals

section Gate

variable {outside : Outside} {settings : FetchSettings} {context : FetchContext} {url host : Text} {literal : Literal}

def KeepsLiterals (hostnameToIPAddr : Text → Text) : Prop :=
  ∀ host literal, literalOf host = some literal → hostnameToIPAddr host = host

theorem resolvesPrivate_literal (unchanged : KeepsLiterals outside.hostnameToIPAddr) (read : literalOf host = some literal)
    (isPublic : isPrivateHost host = false) : resolvesPrivate outside host = false := by
  rw [resolvesPrivate, unchanged host literal read]
  simp only [isPrivateHost, Bool.or_eq_false_iff] at isPublic
  have blocked := isPublic.2
  simp only [isBlockedIpAddress, Bool.false_and, Bool.false_eq_true, if_false] at blocked ⊢
  rw [blocked]
  simp

theorem private_literals_iff (restricted : isPublicFetchRestricted settings context = true)
    (leads : SchemeLeads outside.parse) (unchanged : KeepsLiterals outside.hostnameToIPAddr)
    (parsed : parseHttpUrlTarget outside.parse url = some host) (read : literalOf host = some literal) :
    (isFetchUrlAllowed outside settings context url = false ↔ literal.Private) ↔
      (WellFormed url ∧ ¬Misread host literal) ∨ (¬WellFormed url ∧ literal.Private) := by
  obtain ⟨-, -, -, lower, -⟩ := parseHttpUrlTarget_spec parsed
  have rejects : isFetchUrlAllowed outside settings context url = false ↔ ¬WellFormed url ∨ isPrivateHost host = true := by
    rw [isFetchUrlAllowed_host restricted leads parsed]
    cases isPublic : isPrivateHost host
    · simp [resolvesPrivate_literal unchanged read isPublic]
    · simp
  rw [rejects, ← isPrivateHost_literal lower read]
  tauto

theorem private_literals_iff_local :
    (isFetchUrlAllowed ⟨authorityParts, id⟩ ⟨chars "public", false, 0, 0⟩ .publicRequest (chars "https://[FD00::1]/") = false ↔
      (Literal.ipv6 [0xfd00, 0, 0, 0, 0, 0, 0, 1]).Private) ↔
      (WellFormed (chars "https://[FD00::1]/") ∧ ¬Misread (chars "fd00::1") (.ipv6 [0xfd00, 0, 0, 0, 0, 0, 0, 1])) ∨
        (¬WellFormed (chars "https://[FD00::1]/") ∧ (Literal.ipv6 [0xfd00, 0, 0, 0, 0, 0, 0, 1]).Private) :=
  private_literals_iff (by decide) authorityParts_scheme (fun _ _ _ => rfl) (by decide) (by rfl)

theorem private_literal_passes :
    parseHttpUrlTarget authorityParts (chars "https://[fe90::1]/") = some (chars "fe90::1") ∧
      literalOf (chars "fe90::1") = some (.ipv6 [0xfe90, 0, 0, 0, 0, 0, 0, 1]) ∧
      ¬(isFetchUrlAllowed ⟨authorityParts, id⟩ ⟨chars "public", false, 0, 0⟩ .publicRequest (chars "https://[fe90::1]/") =
          false ↔ (Literal.ipv6 [0xfe90, 0, 0, 0, 0, 0, 0, 1]).Private) := by
  have allowed : isFetchUrlAllowed ⟨authorityParts, id⟩ ⟨chars "public", false, 0, 0⟩ .publicRequest
      (chars "https://[fe90::1]/") = true := by decide
  refine ⟨by decide, by rfl, ?_⟩
  rw [allowed]
  intro agrees
  exact absurd (agrees.mpr (.inr (.inr (.inr (.inl (by decide)))))) (by decide)

end Gate

end SubConverter.Handler
