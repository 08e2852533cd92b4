import SubConverter.Server.ClientIp
import SubConverter.Handler.Spelling
import SubConverter.Lib.Stripped

set_option autoImplicit false

namespace SubConverter.Server

open Handler (Address Family Quad parseAddress trimWhitespace digitsValue inetPton4 inetPton6 cString groupBytes isMappedIpv4
  hexDigit hexValue hexGroup hexGroups tailGroups colonParts ptonOctet_spec hexGroup_spec spelled_of_inetPton4 spelled_of_inetPton6)

section Bits

def byteBits (byte : Nat) : List Bool := (List.range 8).map fun i => byte.testBit (7 - i)

def bytesBits (bytes : List Nat) : List Bool := bytes.flatMap byteBits

def addressBits (address : Address) : List Bool := bytesBits address.bytes

variable {x y remaining bits : Nat} {xs ys : List Nat}

theorem length_byteBits (byte : Nat) : (byteBits byte).length = 8 := by simp [byteBits]

theorem testBit_maskByte (remaining byte i : Nat) :
    (maskByte remaining byte).testBit i = (byte.testBit i && decide (8 - remaining ≤ i ∧ i < 8)) := by
  have ones : (0xff : Nat) = 2 ^ 8 - 1 := rfl
  have range : (256 : Nat) = 2 ^ 8 := rfl
  rw [maskByte, Nat.testBit_and, range, Nat.testBit_mod_two_pow, Nat.testBit_shiftLeft, ones, Nat.testBit_two_pow_sub_one]
  congr 1
  by_cases low : 8 - remaining ≤ i
  · by_cases inside : i < 8
    · have near : i - (8 - remaining) < 8 := by omega
      simp [low, inside, near]
    · simp [inside]
  · simp [low]

theorem maskByte_eq_iff (short : remaining ≤ 8) :
    maskByte remaining x = maskByte remaining y ↔ (byteBits x).take remaining = (byteBits y).take remaining := by
  have agree : (byteBits x).take remaining = (byteBits y).take remaining ↔
      ∀ i < remaining, x.testBit (7 - i) = y.testBit (7 - i) := by
    rw [byteBits, byteBits, ← List.map_take, ← List.map_take, List.map_inj_left, List.take_range]
    simp only [List.mem_range]
    exact ⟨fun same i inside => same i (by omega), fun same i inside => same i (by omega)⟩
  rw [agree]
  constructor
  · intro same i inside
    have bit := congrArg (fun byte => byte.testBit (7 - i)) same
    simp only [testBit_maskByte] at bit
    have kept : 8 - remaining ≤ 7 - i ∧ 7 - i < 8 := by omega
    simpa [kept] using bit
  · intro same
    refine Nat.eq_of_testBit_eq fun i => ?_
    rw [testBit_maskByte, testBit_maskByte]
    by_cases kept : 8 - remaining ≤ i ∧ i < 8
    · have bit := same (7 - i) (by omega)
      rw [show 7 - (7 - i) = i by omega] at bit
      rw [bit]
    · rw [decide_eq_false kept, Bool.and_false, Bool.and_false]

theorem maskByte_maskByte (remaining byte : Nat) : maskByte remaining (maskByte remaining byte) = maskByte remaining byte := by
  rw [maskByte, maskByte, Nat.and_assoc, Nat.and_self]

theorem byteBits_inj (small : x < 256) (small' : y < 256) : byteBits x = byteBits y ↔ x = y := by
  have whole : ∀ byte < 256, maskByte 8 byte = byte := by
    intro byte inside
    rw [maskByte]
    exact Nat.and_two_pow_sub_one_of_lt_two_pow (n := 8) inside
  have masked := maskByte_eq_iff (x := x) (y := y) (le_refl 8)
  rw [whole x small, whole y small', List.take_of_length_le (length_byteBits x).le,
    List.take_of_length_le (length_byteBits y).le] at masked
  exact masked.symm

theorem take_behind (byte behind : Nat) (back : List Bool) :
    (byteBits byte ++ back).take (8 + behind) = byteBits byte ++ back.take behind := by
  rw [← length_byteBits byte, List.take_length_add_append]

theorem append_byteBits_inj {back back' : List Bool} :
    byteBits x ++ back = byteBits y ++ back' ↔ byteBits x = byteBits y ∧ back = back' :=
  ⟨fun whole => List.append_inj whole (by rw [length_byteBits, length_byteBits]), fun ⟨front, back⟩ => by rw [front, back]⟩

theorem take_bits_iff (same : xs.length = ys.length) (small : ∀ byte ∈ xs, byte < 256) (small' : ∀ byte ∈ ys, byte < 256) :
    (bytesBits xs).take bits = (bytesBits ys).take bits ↔ xs.take (bits / 8) = ys.take (bits / 8) ∧
      (bits % 8 = 0 ∨ maskByte (bits % 8) (xs.getD (bits / 8) 0) = maskByte (bits % 8) (ys.getD (bits / 8) 0)) := by
  induction xs generalizing ys bits with
  | nil =>
    obtain rfl : ys = [] := List.length_eq_zero_iff.mp same.symm
    simp
  | cons x xs ih =>
    obtain ⟨y, ys, rfl⟩ := List.exists_cons_of_length_eq_add_one same.symm
    simp only [List.mem_cons, forall_eq_or_imp] at small small'
    rw [bytesBits, bytesBits, List.flatMap_cons, List.flatMap_cons, ← bytesBits, ← bytesBits]
    by_cases inside : bits < 8
    · have quotient : bits / 8 = 0 := by omega
      have rest : bits % 8 = bits := by omega
      rw [List.take_append_of_le_length (by rw [length_byteBits]; omega),
        List.take_append_of_le_length (by rw [length_byteBits]; omega), quotient, rest]
      simp only [List.take_zero, List.getD_cons_zero, true_and]
      by_cases none' : bits = 0
      · simp [none']
      · rw [maskByte_eq_iff (by omega)]
        simp [none']
    · obtain ⟨behind, rfl⟩ : ∃ behind, bits = 8 + behind := ⟨bits - 8, by omega⟩
      have quotient : (8 + behind) / 8 = behind / 8 + 1 := by omega
      have rest : (8 + behind) % 8 = behind % 8 := by omega
      rw [take_behind, take_behind, quotient, rest, append_byteBits_inj, byteBits_inj small.1 small'.1,
        ih (by simpa using same) small.2 small'.2]
      simp only [List.take_succ_cons, List.getD_cons_succ, List.cons.injEq, and_assoc]

end Bits

section Words

variable {text part : Text} {parts : List Text} {groups : List Nat} {n : Nat}

theorem hexDigit_le (c : Char) : (hexDigit c).getD 0 ≤ 15 := by
  rw [hexDigit]
  split
  next range =>
    have high : c.toNat ≤ 57 := range.2
    rw [Option.getD_some]
    omega
  next =>
    split
    next range =>
      have high : c.toNat ≤ 102 := range.2
      rw [Option.getD_some]
      omega
    next =>
      split
      next range =>
        have high : c.toNat ≤ 70 := range.2
        rw [Option.getD_some]
        omega
      next => exact Nat.zero_le _

theorem hexValue_lt (digits : Text) : hexValue digits < 16 ^ digits.length := by
  induction digits using List.reverseRecOn with
  | nil => decide
  | append_singleton front c ih =>
    have digit := hexDigit_le c
    rw [hexValue, List.foldl_append, ← hexValue, List.foldl_cons, List.foldl_nil, List.length_append, List.length_singleton,
      Nat.pow_succ]
    omega

theorem hexGroup_lt (read : hexGroup part = some n) : n < 65536 := by
  obtain ⟨-, short, -, rfl⟩ := hexGroup_spec read
  have range := hexValue_lt part
  have most : 16 ^ part.length ≤ 16 ^ 4 := Nat.pow_le_pow_right (by omega) short
  omega

theorem quad_groups_lt {quad : Quad} (read : inetPton4 text = some quad) : ∀ group ∈ quad.groups, group < 65536 := by
  have bytes := (spelled_of_inetPton4 read).bytes
  intro group there
  simp only [Quad.groups, List.mem_cons, List.not_mem_nil, or_false] at there
  omega

theorem hexGroups_lt (read : hexGroups parts = some groups) : ∀ group ∈ groups, group < 65536 := by
  induction parts generalizing groups with
  | nil =>
    obtain rfl : [] = groups := by simpa [hexGroups] using read
    simp
  | cons part rest ih =>
    simp only [hexGroups, Option.bind_eq_bind, Option.bind_eq_some_iff, Option.pure_def, Option.some.injEq] at read
    obtain ⟨n, first, others, inner, rfl⟩ := read
    simpa using ⟨hexGroup_lt first, ih inner⟩

theorem tailGroups_lt (read : tailGroups parts = some groups) : ∀ group ∈ groups, group < 65536 := by
  induction parts using SubConverter.Handler.tailGroups.induct generalizing groups with
  | case1 =>
    obtain rfl : [] = groups := by simpa [tailGroups] using read
    simp
  | case2 part n first =>
    obtain rfl : [n] = groups := by simpa [tailGroups, first] using read
    simpa using hexGroup_lt first
  | case3 part first =>
    simp only [tailGroups, first, Option.map_eq_some_iff] at read
    obtain ⟨quad, dotted, rfl⟩ := read
    exact quad_groups_lt dotted
  | case4 part next rest ih =>
    simp only [tailGroups, Option.bind_eq_bind, Option.bind_eq_some_iff, Option.pure_def, Option.some.injEq] at read
    obtain ⟨n, first, others, inner, rfl⟩ := read
    simpa using ⟨hexGroup_lt first, ih inner⟩

theorem inetPton6_lt (read : inetPton6 text = some groups) : ∀ group ∈ groups, group < 65536 := by
  unfold inetPton6 at read
  split at read
  next left right cut =>
    simp only [Option.bind_eq_bind, Option.bind_eq_some_iff] at read
    obtain ⟨high, leftRead, low, rightRead, whole⟩ := read
    rw [Option.ite_none_right_eq_some] at whole
    obtain ⟨-, whole⟩ := whole
    obtain rfl := Option.some_inj.mp whole
    intro group there
    simp only [List.mem_append, List.mem_replicate] at there
    rcases there with (there | ⟨-, rfl⟩) | there
    · exact hexGroups_lt leftRead group there
    · decide
    · exact tailGroups_lt rightRead group there
  next =>
    simp only [Option.bind_eq_bind, Option.bind_eq_some_iff] at read
    obtain ⟨groups', inner, whole⟩ := read
    rw [Option.ite_none_right_eq_some] at whole
    obtain rfl := Option.some_inj.mp whole.2
    exact tailGroups_lt inner

end Words

section Addresses

variable {raw : Text} {address : Address} {groups : List Nat}

/-- Sixteen bytes, as `Address` keeps them for both families. -/
structure SixteenBytes (bytes : List Nat) : Prop where
  count : bytes.length = 16
  small : ∀ byte ∈ bytes, byte < 256

theorem groupBytes_sixteen (eight : groups.length = 8) (small : ∀ group ∈ groups, group < 65536) :
    SixteenBytes (groupBytes groups) := by
  constructor
  · rw [groupBytes, List.length_flatMap]
    simp [eight]
  · intro byte there
    simp only [groupBytes, List.mem_flatMap, List.mem_cons, List.not_mem_nil, or_false] at there
    obtain ⟨group, inside, rfl | rfl⟩ := there
    · have range := small group inside
      omega
    · omega

theorem sixteen_of_four {front : List Nat} (count : front.length = 4) (small : ∀ byte ∈ front, byte < 256) :
    SixteenBytes (front ++ List.replicate 12 0) := by
  constructor
  · rw [List.length_append, List.length_replicate, count]
  · intro byte there
    rcases List.mem_append.mp there with there | there
    · exact small byte there
    · rw [List.eq_of_mem_replicate there]
      decide

theorem parseAddress_sixteen (parsed : parseAddress raw = some address) : SixteenBytes address.bytes := by
  simp only [parseAddress] at parsed
  rw [Option.ite_none_left_eq_some] at parsed
  obtain ⟨-, parsed⟩ := parsed
  split at parsed
  next quad read =>
    obtain rfl := Option.some_inj.mp parsed
    have bytes := (spelled_of_inetPton4 read).bytes
    refine sixteen_of_four rfl fun byte there => ?_
    simp only [List.mem_cons, List.not_mem_nil, or_false] at there
    omega
  next =>
    split at parsed
    next => cases parsed
    next groups read =>
      have sixteen := groupBytes_sixteen (spelled_of_inetPton6 read).eight (inetPton6_lt read)
      split at parsed
      next =>
        obtain rfl := Option.some_inj.mp parsed
        exact sixteen_of_four (by rw [List.length_drop, sixteen.count]) fun byte there => sixteen.small byte (List.mem_of_mem_drop there)
      next =>
        obtain rfl := Option.some_inj.mp parsed
        exact sixteen

def ReadsIpv4 (text : Text) : Prop :=
  (inetPton4 text).isSome ∨ ∃ groups, inetPton6 text = some groups ∧ isMappedIpv4 (groupBytes groups)

theorem parseAddress_family (parsed : parseAddress raw = some address) :
    address.family = .ipv4 ↔ ReadsIpv4 (cString (trimWhitespace raw)) := by
  simp only [parseAddress] at parsed
  rw [Option.ite_none_left_eq_some] at parsed
  obtain ⟨-, parsed⟩ := parsed
  rw [ReadsIpv4]
  split at parsed
  next quad read =>
    obtain rfl := Option.some_inj.mp parsed
    simp [read]
  next unread =>
    split at parsed
    next => cases parsed
    next groups read =>
      simp only [unread, read, Option.isSome_none, Bool.false_eq_true, Option.some.injEq, exists_eq_left', false_or]
      split at parsed
      next mapped =>
        obtain rfl := Option.some_inj.mp parsed
        simp [mapped]
      next other =>
        obtain rfl := Option.some_inj.mp parsed
        simp [other]

end Addresses

section Matching

variable {raw : Text} {address network : Address} {bits : Nat}

theorem contains_iff (sixteen : SixteenBytes network.bytes) (sixteen' : SixteenBytes address.bytes) :
    Cidr.contains ⟨network, bits⟩ address = true ↔
      address.family = network.family ∧ (addressBits address).take bits = (addressBits network).take bits := by
  rw [addressBits, addressBits,
    take_bits_iff (by rw [sixteen.count, sixteen'.count]) sixteen'.small sixteen.small, Cidr.contains]
  simp only
  by_cases family : address.family = network.family
  · rw [if_neg (not_not.mpr family)]
    by_cases whole : network.bytes.take (bits / 8) = address.bytes.take (bits / 8)
    · rw [if_neg (not_not.mpr whole)]
      by_cases none' : bits % 8 = 0
      · simp [family, whole, none']
      · simp only [none', if_false, decide_eq_true_eq, family, whole, false_or, true_and]
        exact eq_comm
    · simp [whole, Ne.symm whole]
  · simp [family]

theorem getD_maskNetwork (remaining : bits % 8 ≠ 0) :
    (maskNetwork network bits).bytes.getD (bits / 8) 0 = maskByte (bits % 8) (network.bytes.getD (bits / 8) 0) := by
  have masks : maskByte (bits % 8) 0 = 0 := Nat.zero_and _
  simp only [maskNetwork, remaining, if_false, List.getD_eq_getElem?_getD, List.getElem?_mapIdx, List.getElem?_modify]
  cases network.bytes[bits / 8]? with
  | none => simp [masks]
  | some byte => simp

theorem take_maskNetwork : (maskNetwork network bits).bytes.take (bits / 8) = network.bytes.take (bits / 8) := by
  refine List.ext_getElem? fun i => ?_
  rw [List.getElem?_take, List.getElem?_take]
  by_cases inside : i < bits / 8
  · rw [if_pos inside, if_pos inside]
    simp only [maskNetwork, List.getElem?_mapIdx]
    have front : ¬(bits / 8 + (if bits % 8 = 0 then 0 else 1) ≤ i ∧ i < familyBits network.family / 8) := by omega
    split
    next =>
      rw [if_pos ‹_›] at front
      cases network.bytes[i]? with
      | none => rfl
      | some byte => rw [Option.map_some, if_neg front]
    next =>
      rw [if_neg ‹_›] at front
      have apart : ¬bits / 8 = i := by omega
      rw [List.getElem?_modify]
      cases network.bytes[i]? with
      | none => rfl
      | some byte => simp only [Option.map_eq_map, Option.map_some, if_neg apart, if_neg front]
  · rw [if_neg inside, if_neg inside]

theorem contains_maskNetwork (network address : Address) (bits : Nat) :
    Cidr.contains ⟨maskNetwork network bits, bits⟩ address = Cidr.contains ⟨network, bits⟩ address := by
  simp only [Cidr.contains, take_maskNetwork]
  have family : (maskNetwork network bits).family = network.family := rfl
  rw [family]
  by_cases none' : bits % 8 = 0
  · simp [none']
  · rw [getD_maskNetwork none', maskByte_maskByte]

end Matching

section Prefixes

variable {raw bits : Text} {value : Nat}

theorem foldl_digits_le (bits : Text) (value : Nat) : value ≤ bits.foldl (fun value c => value * 10 + (c.toNat - 48)) value := by
  induction bits generalizing value with
  | nil => exact le_refl value
  | cons c rest ih => exact Nat.le_trans (by omega) (ih (value * 10 + (c.toNat - 48)))

theorem prefixBits_eq (bits : Text) (value : Nat) :
    let whole := bits.foldl (fun value c => value * 10 + (c.toNat - 48)) value
    prefixBits value bits = whole ∨ (128 < prefixBits value bits ∧ 128 < whole) := by
  induction bits generalizing value with
  | nil => exact .inl rfl
  | cons c rest ih =>
    have grows := foldl_digits_le rest (value * 10 + (c.toNat - 48))
    simp only [prefixBits, List.foldl_cons]
    split
    next long => exact .inr ⟨long, by omega⟩
    next => exact ih (value * 10 + (c.toNat - 48))

theorem prefix_in_range (family : Family) :
    (¬(prefixBits 0 bits = 0 ∨ familyBits family < prefixBits 0 bits) ↔ 1 ≤ digitsValue bits ∧ digitsValue bits ≤ familyBits family) ∧
      (digitsValue bits ≤ familyBits family → prefixBits 0 bits = digitsValue bits) := by
  have most : familyBits family ≤ 128 := by cases family <;> decide
  have read : prefixBits 0 bits = digitsValue bits ∨ (128 < prefixBits 0 bits ∧ 128 < digitsValue bits) := prefixBits_eq bits 0
  rcases read with same | ⟨long, long'⟩
  · rw [same]
    exact ⟨by omega, fun _ => rfl⟩
  · exact ⟨by omega, fun inside => by omega⟩

def CidrText (raw : Text) (cidr : Cidr) : Prop :=
  ∃ address bits network, trimWhitespace raw = address ++ '/' :: bits ∧ '/' ∉ address ∧ parseAddress address = some network ∧
    bits ≠ [] ∧ bits.all Char.isDigit = true ∧ 1 ≤ digitsValue bits ∧ digitsValue bits ≤ familyBits network.family ∧
    cidr = ⟨maskNetwork network (digitsValue bits), digitsValue bits⟩

theorem parseCidr_iff (raw : Text) (cidr : Cidr) : parseCidr raw = .ok cidr ↔ CidrText raw cidr := by
  rw [parseCidr, CidrText]
  constructor
  · intro parsed
    split at parsed
    next => cases parsed
    next address bits cut =>
      obtain ⟨whole, first⟩ := cutAt_mark_iff.mp cut
      split at parsed
      next => cases parsed
      next =>
        split at parsed
        next => cases parsed
        next network read =>
          split at parsed
          next => cases parsed
          next digits =>
            rw [not_or, Bool.not_eq_false] at digits
            split at parsed
            next => cases parsed
            next inside =>
              obtain ⟨range, same⟩ := @prefix_in_range bits network.family
              have range := range.mp inside
              rw [same range.2] at parsed
              exact ⟨address, bits, network, whole, first, read, digits.1, digits.2, range.1, range.2,
                (Except.ok.inj parsed).symm⟩
  · rintro ⟨address, bits, network, whole, first, read, present, digits, positive, most, rfl⟩
    obtain ⟨range, same⟩ := @prefix_in_range bits network.family
    have plain : '/' ∉ bits := fun there => absurd (List.all_eq_true.mp digits '/' there) (by decide)
    have inside := range.mpr ⟨positive, most⟩
    rw [same most] at inside
    rw [cutAt_mark_iff.mpr ⟨whole, first⟩]
    dsimp only
    rw [if_neg plain, read]
    dsimp only
    rw [if_neg (by simp [present, digits]), same most, if_neg inside]

/-- A text that is accepted: one network and a prefix in the range of its family, of as many digits as it has. -/
structure AcceptedCidr (raw : Text) (cidr : Cidr) (part bits : Text) (network : Address) : Prop where
  whole : trimWhitespace raw = part ++ '/' :: bits
  single : '/' ∉ part
  parsed : parseAddress part = some network
  present : bits ≠ []
  digits : bits.all Char.isDigit = true
  positive : 1 ≤ digitsValue bits
  inside : ReadsIpv4 (cString (trimWhitespace part)) → digitsValue bits ≤ 32
  inside' : ¬ReadsIpv4 (cString (trimWhitespace part)) → digitsValue bits ≤ 128
  cleared : cidr = ⟨maskNetwork network (digitsValue bits), digitsValue bits⟩

theorem accepted_iff (raw : Text) (cidr : Cidr) :
    parseCidr raw = .ok cidr ↔ ∃ part bits network, AcceptedCidr raw cidr part bits network := by
  rw [parseCidr_iff]
  constructor
  · rintro ⟨part, bits, network, whole, single, parsed, present, digits, positive, most, cleared⟩
    have family := parseAddress_family parsed
    refine ⟨part, bits, network, whole, single, parsed, present, digits, positive, fun dotted => ?_, fun _ => ?_, cleared⟩
    · rw [family.mpr dotted] at most
      exact most
    · cases kind : network.family with
      | ipv4 =>
        rw [kind] at most
        exact Nat.le_trans most (by decide)
      | ipv6 =>
        rw [kind] at most
        exact most
  · rintro ⟨part, bits, network, whole, single, parsed, present, digits, positive, inside, inside', cleared⟩
    have family := parseAddress_family parsed
    refine ⟨part, bits, network, whole, single, parsed, present, digits, positive, ?_, cleared⟩
    cases kind : network.family with
    | ipv4 => exact inside (family.mp kind)
    | ipv6 =>
      refine inside' fun dotted => ?_
      rw [family.mpr dotted] at kind
      cases kind

theorem AcceptedCidr.contains_iff {cidr : Cidr} {part : Text} {network : Address}
    (accepted : AcceptedCidr raw cidr part bits network) {text : Text} {address : Address} (read : parseAddress text = some address) :
    cidr.contains address = true ↔
      address.family = network.family ∧
        (addressBits address).take (digitsValue bits) = (addressBits network).take (digitsValue bits) := by
  rw [accepted.cleared, contains_maskNetwork]
  exact Server.contains_iff (parseAddress_sixteen accepted.parsed) (parseAddress_sixteen read)

theorem cidr_matching_exact (raw : Text) :
    (∀ cidr, parseCidr raw = .ok cidr ↔ ∃ part bits network, AcceptedCidr raw cidr part bits network) ∧
      ∀ cidr part bits network, AcceptedCidr raw cidr part bits network →
        ∀ text address, parseAddress text = some address →
          (cidr.contains address = true ↔
            (ReadsIpv4 (cString (trimWhitespace text)) ↔ ReadsIpv4 (cString (trimWhitespace part))) ∧
              (addressBits address).take (digitsValue bits) = (addressBits network).take (digitsValue bits)) ∧
          cidr.contains address = Cidr.contains ⟨network, digitsValue bits⟩ address := by
  refine ⟨accepted_iff raw, fun cidr part bits network accepted text address read => ⟨?_, ?_⟩⟩
  · have sameFamily : address.family = network.family ↔
        (ReadsIpv4 (cString (trimWhitespace text)) ↔ ReadsIpv4 (cString (trimWhitespace part))) := by
      rw [← parseAddress_family read, ← parseAddress_family accepted.parsed]
      cases address.family <;> cases network.family <;> simp
    rw [accepted.contains_iff read, sameFamily]
  · rw [accepted.cleared, contains_maskNetwork]

end Prefixes

end SubConverter.Server
