import SubConverter.Lib.Stripped
import SubConverter.Lib.Utf8

set_option autoImplicit false

namespace SubConverter.FormUrlencoded

open Wire (Bytes)

/-! Lists of names and values in the format `application/x-www-form-urlencoded`. -/

section Decoding

def replacement : Char := '\ufffd'

structure Pending where
  needed : Nat
  value : Nat
  lower : Nat := 0x80
  upper : Nat := 0xbf

def lead (byte : UInt8) : Text × Option Pending :=
  if byte.toNat < 0x80 then ([Char.ofNat byte.toNat], none)
  else
    match Utf8.leadByte byte.toNat with
    | none => ([replacement], none)
    | some (count, lower, upper) => ([], some ⟨count, byte.toNat % 2 ^ (6 - count), lower, upper⟩)

-- A byte that cannot go on with a sequence is read once more as the first of another one.
def next : Option Pending → UInt8 → Text × Option Pending
  | none, byte => lead byte
  | some pending, byte =>
    if pending.lower ≤ byte.toNat ∧ byte.toNat ≤ pending.upper then
      let value := pending.value * 64 + byte.toNat % 64
      if pending.needed = 1 then ([Char.ofNat value], none) else ([], some ⟨pending.needed - 1, value, 0x80, 0xbf⟩)
    else (replacement :: (lead byte).1, (lead byte).2)

def decodeFrom (pending : Option Pending) : Bytes → Text
  | [] => if pending.isSome then [replacement] else []
  | byte :: rest => (next pending byte).1 ++ decodeFrom (next pending byte).2 rest

def utf8 (text : Text) : Bytes := text.flatMap fun c => Utf8.encodeRune c.toNat

theorem leadByte_two {n : Nat} (low : 0xc2 ≤ n) (high : n < 0xe0) : Utf8.leadByte n = some (1, 0x80, 0xbf) := by
  unfold Utf8.leadByte
  rw [if_neg (by omega), if_pos high]

theorem leadByte_three {n second : Nat} (low : 0xe0 ≤ n) (high : n < 0xf0) (first : n = 0xe0 → 0xa0 ≤ second)
    (surrogate : n = 0xed → second ≤ 0x9f) (inside : 0x80 ≤ second ∧ second ≤ 0xbf) :
    ∃ lower upper, Utf8.leadByte n = some (2, lower, upper) ∧ lower ≤ second ∧ second ≤ upper := by
  unfold Utf8.leadByte
  rw [if_neg (by omega), if_neg (by omega)]
  by_cases bottom : n = 0xe0
  · exact ⟨0xa0, 0xbf, if_pos bottom, first bottom, inside.2⟩
  · rw [if_neg bottom]
    by_cases middle : n = 0xed
    · exact ⟨0x80, 0x9f, if_pos middle, inside.1, surrogate middle⟩
    · rw [if_neg middle, if_pos high]
      exact ⟨0x80, 0xbf, rfl, inside⟩

theorem leadByte_four {n second : Nat} (low : 0xf0 ≤ n) (high : n ≤ 0xf4) (first : n = 0xf0 → 0x90 ≤ second)
    (last : n = 0xf4 → second ≤ 0x8f) (inside : 0x80 ≤ second ∧ second ≤ 0xbf) :
    ∃ lower upper, Utf8.leadByte n = some (3, lower, upper) ∧ lower ≤ second ∧ second ≤ upper := by
  unfold Utf8.leadByte
  rw [if_neg (by omega), if_neg (by omega), if_neg (by omega), if_neg (by omega), if_neg (by omega)]
  by_cases bottom : n = 0xf0
  · exact ⟨0x90, 0xbf, if_pos bottom, first bottom, inside.2⟩
  · rw [if_neg bottom]
    by_cases top : n = 0xf4
    · exact ⟨0x80, 0x8f, by rw [if_neg (by omega), if_pos top], inside.1, last top⟩
    · rw [if_pos (by omega)]
      exact ⟨0x80, 0xbf, rfl, inside⟩

theorem byte_toNat {n : Nat} (small : n < 256) : (UInt8.ofNat n).toNat = n := by
  rw [UInt8.toNat_ofNat', Nat.mod_eq_of_lt small]

theorem decodeFrom_next {pending : Pending} {n : Nat} {rest : Bytes} (small : n < 256)
    (inside : pending.lower ≤ n ∧ n ≤ pending.upper) (more : pending.needed ≠ 1) :
    decodeFrom (some pending) (UInt8.ofNat n :: rest) =
      decodeFrom (some ⟨pending.needed - 1, pending.value * 64 + n % 64, 0x80, 0xbf⟩) rest := by
  rw [decodeFrom, next, byte_toNat small, if_pos inside, if_neg more, List.nil_append]

theorem decodeFrom_last {pending : Pending} {n : Nat} {rest : Bytes} (small : n < 256)
    (inside : pending.lower ≤ n ∧ n ≤ pending.upper) (last : pending.needed = 1) :
    decodeFrom (some pending) (UInt8.ofNat n :: rest) = Char.ofNat (pending.value * 64 + n % 64) :: decodeFrom none rest := by
  rw [decodeFrom, next, byte_toNat small, if_pos inside, if_pos last, List.singleton_append]

theorem decodeFrom_lead {n count lower upper : Nat} {rest : Bytes} (small : n < 256) (large : 0x80 ≤ n)
    (found : Utf8.leadByte n = some (count, lower, upper)) :
    decodeFrom none (UInt8.ofNat n :: rest) = decodeFrom (some ⟨count, n % 2 ^ (6 - count), lower, upper⟩) rest := by
  rw [decodeFrom, next, lead, byte_toNat small, if_neg (by omega), found, List.nil_append]

theorem decodeFrom_encodeRune (c : Char) (rest : Bytes) :
    decodeFrom none (Utf8.encodeRune c.toNat ++ rest) = c :: decodeFrom none rest := by
  have scalar : c.toNat < 0xd800 ∨ (0xdfff < c.toNat ∧ c.toNat < 0x110000) := c.valid
  have back : ∀ n, n = c.toNat → Char.ofNat n = c := by
    rintro n rfl
    exact Char.ofNat_toNat c
  unfold Utf8.encodeRune
  by_cases one : c.toNat < 0x80
  · rw [if_pos one, List.singleton_append, decodeFrom, next, lead, byte_toNat (by omega), if_pos one, back _ rfl]
    rfl
  rw [if_neg one]
  by_cases two : c.toNat < 0x800
  · rw [if_pos two, List.cons_append, List.singleton_append, decodeFrom_lead (by omega) (by omega)
      (leadByte_two (by omega) (by omega)), decodeFrom_last (by omega) (by dsimp only; omega) rfl, back]
    dsimp only
    omega
  rw [if_neg two, if_neg (by omega)]
  by_cases three : c.toNat < 0x10000
  · obtain ⟨lower, upper, found, inside⟩ := @leadByte_three (0xe0 + c.toNat / 4096) (0x80 + c.toNat / 64 % 64)
      (by omega) (by omega) (by omega) (by omega) (by omega)
    rw [if_pos three, List.cons_append, List.cons_append, List.singleton_append, decodeFrom_lead (by omega) (by omega) found,
      decodeFrom_next (by omega) inside (by simp), decodeFrom_last (by omega) (by dsimp only; omega) rfl, back]
    dsimp only
    omega
  · obtain ⟨lower, upper, found, inside⟩ := @leadByte_four (0xf0 + c.toNat / 262144) (0x80 + c.toNat / 4096 % 64)
      (by omega) (by omega) (by omega) (by omega) (by omega)
    rw [if_neg three, List.cons_append, List.cons_append, List.cons_append, List.singleton_append,
      decodeFrom_lead (by omega) (by omega) found, decodeFrom_next (by omega) inside (by simp),
      decodeFrom_next (by omega) (by dsimp only; omega) (by simp), decodeFrom_last (by omega) (by dsimp only; omega) rfl, back]
    dsimp only
    omega

theorem decode_utf8 (text : Text) : decodeFrom none (utf8 text) = text := by
  induction text with
  | nil => rfl
  | cons c rest ih => rw [utf8, List.flatMap_cons, decodeFrom_encodeRune, ← utf8, ih]

end Decoding

section Percent

def hexDigit (n : Nat) : Char := (chars "0123456789ABCDEF").getD n '0'

def hexValue (byte : UInt8) : Option Nat :=
  let n := byte.toNat
  if 0x30 ≤ n ∧ n ≤ 0x39 then some (n - 0x30)
  else if 0x41 ≤ n ∧ n ≤ 0x46 then some (n - 0x41 + 10)
  else if 0x61 ≤ n ∧ n ≤ 0x66 then some (n - 0x61 + 10)
  else none

def percent (byte : UInt8) : Text := ['%', hexDigit (byte.toNat / 16), hexDigit (byte.toNat % 16)]

def percentEncode (kept : UInt8 → Bool) (text : Text) : Text :=
  (utf8 text).flatMap fun byte => if kept byte then [Char.ofNat byte.toNat] else percent byte

def escaped : Bytes → Option UInt8
  | first :: second :: _ => do
    let high ← hexValue first
    let low ← hexValue second
    return UInt8.ofNat (high * 16 + low)
  | _ => none

-- What is no escape stays as it is. The first argument counts the digits that have been read.
def percentDecodeFrom : Nat → Bytes → Bytes
  | _, [] => []
  | skip + 1, _ :: rest => percentDecodeFrom skip rest
  | 0, byte :: rest =>
    match if byte = 0x25 then escaped rest else none with
    | some decoded => decoded :: percentDecodeFrom 2 rest
    | none => byte :: percentDecodeFrom 0 rest

def percentDecode (bytes : Bytes) : Bytes := percentDecodeFrom 0 bytes

def isAlphanumeric (byte : UInt8) : Bool :=
  let n := byte.toNat
  (0x30 ≤ n && n ≤ 0x39) || (0x41 ≤ n && n ≤ 0x5a) || (0x61 ≤ n && n ≤ 0x7a)

/-- The bytes that a form leaves as they are. -/
def plain (byte : UInt8) : Bool := isAlphanumeric byte || byte ∈ utf8 (chars "*-._")

def encodeByte (byte : UInt8) : Text :=
  if byte = 0x20 then ['+'] else if plain byte then [Char.ofNat byte.toNat] else percent byte

def encode (text : Text) : Text := (utf8 text).flatMap encodeByte

def plusToSpace (c : Char) : Char := if c = '+' then ' ' else c

def decode (text : Text) : Text := decodeFrom none (percentDecode (utf8 (text.map plusToSpace)))

def serialize (pairs : List (Text × Text)) : Text :=
  ['&'].intercalate (pairs.map fun pair => encode pair.1 ++ '=' :: encode pair.2)

def parsePair (part : Text) : Option (Text × Text) :=
  if part = [] then none
  else
    match cutAt ['='] part with
    | some (name, value) => some (decode name, decode value)
    | none => some (decode part, [])

def parse (query : Text) : List (Text × Text) := (query.splitOn '&').filterMap parsePair

-- The characters of a serialized list.
def isQueryChar (c : Char) : Bool := c.isAlphanum || c ∈ chars "*-._+%&="

end Percent

section RoundTrip

variable {P : UInt8 → Prop}

theorem forall_byte (all : ∀ n : Fin 256, P (UInt8.ofNat n)) (byte : UInt8) : P byte := by
  have here := all ⟨byte.toNat, byte.toNat_lt⟩
  rwa [UInt8.ofNat_toNat] at here

theorem encodeByte_chars (byte : UInt8) : ∀ c ∈ encodeByte byte, isQueryChar c = true ∧ c ≠ '&' ∧ c ≠ '=' := by
  have kept : (encodeByte byte).all fun c => isQueryChar c && c != '&' && c != '=' := by
    revert byte
    exact forall_byte (by decide +kernel)
  intro c there
  have found := List.all_eq_true.mp kept c there
  simp only [Bool.and_eq_true, bne_iff_ne, ne_eq] at found
  exact ⟨found.1.1, found.1.2, found.2⟩

theorem encodeByte_bytes : ∀ byte,
    (utf8 ((encodeByte byte).map plusToSpace) = [byte] ∧ byte ≠ 0x25) ∨
      ∃ first second, utf8 ((encodeByte byte).map plusToSpace) = [0x25, first, second] ∧
        hexValue first = some (byte.toNat / 16) ∧ hexValue second = some (byte.toNat % 16) := by
  have found : ∀ byte, (utf8 ((encodeByte byte).map plusToSpace) = [byte] ∧ byte ≠ 0x25) ∨
      ∃ first ∈ utf8 (encodeByte byte), ∃ second ∈ utf8 (encodeByte byte),
        utf8 ((encodeByte byte).map plusToSpace) = [0x25, first, second] ∧
          hexValue first = some (byte.toNat / 16) ∧ hexValue second = some (byte.toNat % 16) :=
    forall_byte (by decide +kernel)
  intro byte
  refine (found byte).imp_right ?_
  rintro ⟨first, -, second, -, escape⟩
  exact ⟨first, second, escape⟩

theorem utf8_append (first second : Text) : utf8 (first ++ second) = utf8 first ++ utf8 second := List.flatMap_append

theorem percentDecode_encodeByte (byte : UInt8) (rest : Bytes) :
    percentDecode (utf8 ((encodeByte byte).map plusToSpace) ++ rest) = byte :: percentDecode rest := by
  rcases encodeByte_bytes byte with ⟨single, other⟩ | ⟨first, second, escape, high, low⟩
  · rw [single, List.singleton_append, percentDecode, percentDecodeFrom, if_neg other, percentDecode]
  · have whole : escaped (first :: second :: rest) = some byte := by
      simp only [escaped, high, low, Option.bind_eq_bind, Option.bind_some, Nat.div_add_mod', UInt8.ofNat_toNat, Option.pure_def]
    rw [escape, List.cons_append, List.cons_append, List.singleton_append, percentDecode, percentDecodeFrom, if_pos rfl, whole]
    rfl

theorem percentDecode_encode (bytes : Bytes) : percentDecode (utf8 ((bytes.flatMap encodeByte).map plusToSpace)) = bytes := by
  induction bytes with
  | nil => rfl
  | cons byte rest ih => rw [List.flatMap_cons, List.map_append, utf8_append, percentDecode_encodeByte, ih]

theorem decode_encode (text : Text) : decode (encode text) = text := by
  rw [decode, encode, percentDecode_encode, decode_utf8]

theorem encode_chars {text : Text} {c : Char} (there : c ∈ encode text) : isQueryChar c = true ∧ c ≠ '&' ∧ c ≠ '=' := by
  obtain ⟨byte, -, inside⟩ := List.mem_flatMap.mp there
  exact encodeByte_chars byte c inside

theorem parsePair_encode (pair : Text × Text) : parsePair (encode pair.1 ++ '=' :: encode pair.2) = some pair := by
  have cut : cutAt ['='] (encode pair.1 ++ '=' :: encode pair.2) = some (encode pair.1, encode pair.2) :=
    cutAt_mark_iff.mpr ⟨rfl, fun there => (encode_chars there).2.2 rfl⟩
  rw [parsePair, if_neg (by simp), cut]
  simp only [decode_encode]

theorem parse_serialize (pairs : List (Text × Text)) : parse (serialize pairs) = pairs := by
  rw [parse, serialize]
  by_cases none : pairs = []
  · subst none
    rfl
  · have every : (parsePair ∘ fun pair : Text × Text => encode pair.1 ++ '=' :: encode pair.2) = some := funext parsePair_encode
    rw [List.splitOn_intercalate _ _ (by simpa using none), List.filterMap_map, every, List.filterMap_some]
    · intro part there inside
      obtain ⟨pair, -, rfl⟩ := List.mem_map.mp there
      rcases List.mem_append.mp inside with name | value
      · exact (encode_chars name).2.1 rfl
      · exact (encode_chars ((List.mem_cons.mp value).resolve_left (by decide))).2.1 rfl

theorem serialize_chars (pairs : List (Text × Text)) : ∀ c ∈ serialize pairs, isQueryChar c = true := by
  have part : ∀ pair : Text × Text, ∀ c ∈ encode pair.1 ++ '=' :: encode pair.2, isQueryChar c = true := by
    intro pair c there
    rcases List.mem_append.mp there with name | value
    · exact (encode_chars name).1
    · rcases List.mem_cons.mp value with rfl | value
      · decide
      · exact (encode_chars value).1
  rw [serialize]
  induction pairs with
  | nil => simp
  | cons pair rest ih =>
    cases rest with
    | nil => simpa using part pair
    | cons second more =>
      rw [List.map_cons, List.intercalate_cons_of_ne_nil (by simp)]
      intro c there
      rcases List.mem_append.mp there with here | later
      · rcases List.mem_append.mp here with here | mark
        · exact part pair c here
        · rw [List.mem_singleton.mp mark]
          decide
      · exact ih c later

end RoundTrip

end SubConverter.FormUrlencoded
