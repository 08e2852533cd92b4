import Mathlib.Data.Nat.Bitwise
import SubConverter.Lib.Protobuf
import SubConverter.Lib.Results
import SubConverter.Parser.MieruUri

set_option autoImplicit false

namespace SubConverter.Parser

open Wire (Bytes)
open Bridge (ascii Encoding stdEncoding)
open Protobuf (Grouped Varint Field Message groupsValue grouped_cons_iff grouped_singleton message_nil)

section Wire

variable {data rest field : Bytes} {v : Nat}

theorem low_bits (byte : UInt8) : byte.toNat &&& 0x7f = byte.toNat % 128 := Nat.and_two_pow_sub_one_eq_mod _ 7

theorem high_bit (byte : UInt8) : byte.toNat &&& 0x80 = 0 ↔ byte.toNat < 128 := by
  have bit : byte.toNat &&& 0x80 = (byte.toNat.testBit 7).toNat * 0x80 := Nat.and_two_pow byte.toNat 7
  have := byte.toNat_lt
  rw [bit, Nat.testBit_eq_decide_div_mod_eq, Nat.mul_eq_zero, Bool.toNat_eq_zero, decide_eq_false_iff_not]
  omega

theorem or_group {value : Nat} {k : Nat} (byte : UInt8) (small : value < 2 ^ (7 * k)) :
    value ||| (byte.toNat &&& 0x7f) <<< (7 * k) = value + 2 ^ (7 * k) * (byte.toNat % 128) := by
  rw [low_bits, Nat.shiftLeft_eq, Nat.mul_comm, Nat.or_comm, ← Nat.two_pow_add_eq_or_of_lt small, Nat.add_comm]

def Continues (k value : Nat) (data rest : Bytes) (v : Nat) : Prop :=
  ∃ text, data = text ++ rest ∧ Grouped text ∧ k + text.length ≤ 10 ∧ v < 2 ^ 64 ∧ value + 2 ^ (7 * k) * groupsValue text = v

theorem not_continues_nil {k value : Nat} : ¬Continues k value [] rest v := by
  rintro ⟨text, same, grouped, -⟩
  exact grouped.ne_nil (List.append_eq_nil_iff.mp same.symm).1

theorem continues_cons_iff {k value : Nat} {byte : UInt8} : Continues k value (byte :: data) rest v ↔
    (byte.toNat < 128 ∧ data = rest ∧ k < 10 ∧ v < 2 ^ 64 ∧ value + 2 ^ (7 * k) * byte.toNat = v) ∨
      (128 ≤ byte.toNat ∧ Continues (k + 1) (value + 2 ^ (7 * k) * (byte.toNat % 128)) data rest v) := by
  have grown : 2 ^ (7 * (k + 1)) = 2 ^ (7 * k) * 128 := by rw [Nat.mul_add, Nat.pow_add]
  constructor
  · rintro ⟨text, same, grouped, short, fits, total⟩
    cases text with
    | nil => exact absurd rfl grouped.ne_nil
    | cons first text =>
      obtain ⟨rfl, rfl⟩ := List.cons_eq_cons.mp same
      rw [List.length_cons] at short
      rcases grouped_cons_iff.mp grouped with ⟨final, rfl⟩ | ⟨more, further⟩
      · simp only [groupsValue, Nat.mod_eq_of_lt final, Nat.mul_zero, Nat.add_zero] at total
        exact .inl ⟨final, rfl, by omega, fits, total⟩
      · refine .inr ⟨more, text, rfl, further, by omega, fits, ?_⟩
        rw [← total, groupsValue, grown]
        ring
  · rintro (⟨final, rfl, short, fits, total⟩ | ⟨more, text, rfl, further, short, fits, total⟩)
    · refine ⟨[byte], rfl, grouped_singleton final, short, fits, ?_⟩
      simpa only [groupsValue, Nat.mod_eq_of_lt final, Nat.mul_zero, Nat.add_zero] using total
    · refine ⟨byte :: text, rfl, further.cons more, by rw [List.length_cons]; omega, fits, ?_⟩
      rw [← total, groupsValue, grown]
      ring

theorem readVarint_from {k value : Nat} (inside : k ≤ 10) (small : value < 2 ^ (7 * k)) :
    readVarint (7 * k) value data = some (v, rest) ↔ Continues k value data rest v := by
  induction data generalizing k value with
  | nil => simp [readVarint, not_continues_nil]
  | cons byte data ih =>
    have size : byte.toNat < 256 := byte.toNat_lt
    have grown : 2 ^ (7 * (k + 1)) = 2 ^ (7 * k) * 128 := by rw [Nat.mul_add, Nat.pow_add]
    rw [readVarint, or_group byte small, continues_cons_iff]
    by_cases far : 64 ≤ 7 * k
    · -- Ten bytes were read before.
      obtain rfl : k = 10 := by omega
      simp only [far, if_true, reduceCtorEq, false_iff, not_or]
      refine ⟨by omega, ?_⟩
      rintro ⟨-, text, -, -, short, -⟩
      omega
    rw [if_neg far]
    by_cases last : 7 * k = 63 ∧ 1 < byte.toNat
    · -- The tenth byte has a bit that no 64 bits hold.
      obtain rfl : k = 9 := by omega
      simp only [last, and_self, if_true, reduceCtorEq, false_iff, not_or]
      refine ⟨by omega, ?_⟩
      rintro ⟨-, text, -, grouped, short, -⟩
      have present := List.length_pos_iff.mpr grouped.ne_nil
      omega
    rw [if_neg last]
    by_cases final : byte.toNat < 128
    · have fits : value + 2 ^ (7 * k) * byte.toNat < 2 ^ 64 := by
        by_cases tenth : k = 9
        · subst tenth
          have bit : byte.toNat ≤ 1 := by omega
          omega
        · have power : 2 ^ (7 * k) ≤ 2 ^ 56 := Nat.pow_le_pow_right (by omega) (by omega)
          have group : 2 ^ (7 * k) * byte.toNat ≤ 2 ^ (7 * k) * 127 := Nat.mul_le_mul_left _ (by omega)
          omega
      rw [if_pos ((high_bit byte).mpr final), Nat.mod_eq_of_lt final, Option.some_inj, Prod.mk.injEq]
      constructor
      · rintro ⟨rfl, rfl⟩
        exact .inl ⟨final, rfl, by omega, fits, rfl⟩
      · rintro (⟨-, behind, -, -, total⟩ | ⟨more, -⟩)
        · exact ⟨total, behind⟩
        · omega
    · have group : 2 ^ (7 * k) * (byte.toNat % 128) ≤ 2 ^ (7 * k) * 127 := Nat.mul_le_mul_left _ (by omega)
      have further := @ih (k + 1) (value + 2 ^ (7 * k) * (byte.toNat % 128)) (by omega) (by omega)
      rw [Nat.mul_add] at further
      rw [if_neg (mt (high_bit byte).mp final), further]
      constructor
      · intro rest
        exact .inr ⟨by omega, rest⟩
      · rintro (⟨less, -⟩ | ⟨-, rest⟩)
        · exact absurd less final
        · exact rest

theorem readVarint_eq_some_iff : readVarint 0 0 data = some (v, rest) ↔ ∃ text, data = text ++ rest ∧ Varint text v := by
  have start := @readVarint_from data rest v 0 0 (by omega) (by omega)
  rw [Nat.mul_zero] at start
  rw [start]
  constructor
  · rintro ⟨text, same, grouped, short, fits, total⟩
    exact ⟨text, same, grouped, by omega, fits, by omega⟩
  · rintro ⟨text, same, grouped, short, fits, total⟩
    exact ⟨text, same, grouped, by omega, fits, by omega⟩

theorem tag_iff {tag : Nat} {text : Bytes} (read : Varint text tag) {type : Nat} (small : type < 8) :
    Protobuf.Tag text type ↔ ¬(tag >>> 3 = 0 ∨ 0x1fffffff < tag >>> 3) ∧ tag &&& 7 = type := by
  have low : tag &&& 7 = tag % 8 := Nat.and_two_pow_sub_one_eq_mod _ 3
  have high : tag >>> 3 = tag / 8 := Nat.shiftRight_eq_div_pow _ 3
  rw [low, high]
  constructor
  · rintro ⟨number, some, bounded, tagged⟩
    have same : tag = 8 * number + type := read.same.symm.trans tagged.same
    omega
  · rintro ⟨bounded, typed⟩
    have whole : tag = 8 * (tag / 8) + type := by omega
    exact ⟨tag / 8, by omega, by omega, whole ▸ read⟩

def behindBody (type : Nat) (rest : Bytes) : Option Bytes :=
  match type with
  | 0 => (readVarint 0 0 rest).map Prod.snd
  | 1 => if rest.length < 8 then none else some (rest.drop 8)
  | 2 => do
    let (length, rest) ← readVarint 0 0 rest
    if rest.length < length then none else some (rest.drop length)
  | 5 => if rest.length < 4 then none else some (rest.drop 4)
  | _ => none

theorem protobufField_tagged {text : Bytes} {type : Nat} (small : type < 8) (tagged : Protobuf.Tag text type) (more : Bytes) :
    protobufField (text ++ more) = behindBody type more := by
  obtain ⟨number, -, -, read⟩ := id tagged
  obtain ⟨bounded, typed⟩ := (tag_iff read small).mp tagged
  rw [protobufField, readVarint_eq_some_iff.mpr ⟨text, rfl, read⟩]
  simp only [Option.bind_eq_bind, Option.bind_some, if_neg bounded, typed]
  clear typed bounded read tagged
  interval_cases type <;> rfl

theorem exists_tag (read : protobufField data = some rest) :
    ∃ text type more, data = text ++ more ∧ type < 8 ∧ Protobuf.Tag text type := by
  obtain ⟨⟨tag, more⟩, first, behind⟩ := Option.bind_eq_some_iff.mp read
  obtain ⟨text, rfl, numbered⟩ := readVarint_eq_some_iff.mp first
  have small : tag &&& 7 < 8 := by
    rw [show tag &&& 7 = tag % 8 from Nat.and_two_pow_sub_one_eq_mod _ 3]
    omega
  refine ⟨text, tag &&& 7, more, rfl, small, (tag_iff numbered small).mpr ⟨?_, rfl⟩⟩
  intro outside
  simp [outside] at behind

theorem split_at {count : Nat} (enough : ¬data.length < count) : ∃ front, data = front ++ data.drop count ∧ front.length = count :=
  ⟨data.take count, (List.take_append_drop count data).symm, List.length_take_of_le (by omega)⟩

theorem protobufField_eq_some_iff : protobufField data = some rest ↔ ∃ field, data = field ++ rest ∧ Field field := by
  constructor
  · intro read
    obtain ⟨tag, type, more, rfl, small, tagged⟩ := exists_tag read
    rw [protobufField_tagged small tagged] at read
    match type with
    | 0 =>
      obtain ⟨⟨value, behind⟩, number, rfl⟩ := Option.map_eq_some_iff.mp read
      obtain ⟨text, rfl, numbered⟩ := readVarint_eq_some_iff.mp number
      exact ⟨tag ++ text, by rw [List.append_assoc], .varint tagged numbered⟩
    | 1 =>
      obtain ⟨enough, same⟩ := Option.ite_none_left_eq_some.mp read
      obtain ⟨front, whole, length⟩ := split_at enough
      obtain rfl := Option.some_inj.mp same
      exact ⟨tag ++ front, by rw [List.append_assoc, ← whole], .fixed64 tagged length⟩
    | 2 =>
      obtain ⟨⟨value, behind⟩, number, found⟩ := Option.bind_eq_some_iff.mp read
      obtain ⟨text, rfl, numbered⟩ := readVarint_eq_some_iff.mp number
      obtain ⟨enough, same⟩ := Option.ite_none_left_eq_some.mp found
      obtain ⟨front, whole, length⟩ := split_at enough
      obtain rfl := Option.some_inj.mp same
      refine ⟨tag ++ (text ++ front), by rw [List.append_assoc, List.append_assoc, ← whole], .delimited tagged ?_⟩
      exact length ▸ numbered
    | 5 =>
      obtain ⟨enough, same⟩ := Option.ite_none_left_eq_some.mp read
      obtain ⟨front, whole, length⟩ := split_at enough
      obtain rfl := Option.some_inj.mp same
      exact ⟨tag ++ front, by rw [List.append_assoc, ← whole], .fixed32 tagged length⟩
    | 3 | 4 | 6 | 7 => cases read
    | more + 8 => omega
  · rintro ⟨field, rfl, complete⟩
    cases complete with
    | @varint tag text value tagged numbered =>
      rw [List.append_assoc, protobufField_tagged (by omega) tagged, behindBody]
      simp only [readVarint_eq_some_iff.mpr ⟨text, rfl, numbered⟩, Option.map_some]
    | @fixed64 tag front tagged length =>
      rw [List.append_assoc, protobufField_tagged (by omega) tagged, behindBody]
      simp [length]
    | @delimited tag text front tagged numbered =>
      rw [List.append_assoc, List.append_assoc, protobufField_tagged (by omega) tagged, behindBody]
      simp [readVarint_eq_some_iff.mpr ⟨text, rfl, numbered⟩]
    | @fixed32 tag front tagged length =>
      rw [List.append_assoc, protobufField_tagged (by omega) tagged, behindBody]
      simp [length]

theorem length_protobufField (read : protobufField data = some rest) : rest.length < data.length := by
  obtain ⟨field, rfl, complete⟩ := protobufField_eq_some_iff.mp read
  have present := List.length_pos_iff.mpr complete.ne_nil
  rw [List.length_append]
  omega

theorem protobufFields_iff {fuel : Nat} (enough : data.length ≤ fuel) : protobufFields fuel data = true ↔ Message data := by
  induction fuel generalizing data with
  | zero =>
    obtain rfl := List.length_eq_zero_iff.mp (Nat.le_zero.mp enough)
    simp [protobufFields, message_nil]
  | succ fuel ih =>
    cases data with
    | nil => simp [protobufFields, message_nil]
    | cons byte others =>
      rw [protobufFields.eq_3 _ _ (List.cons_ne_nil byte others), Option.any_eq_true]
      constructor
      · rintro ⟨rest, read, behind⟩
        have shorter := length_protobufField read
        obtain ⟨field, same, complete⟩ := protobufField_eq_some_iff.mp read
        rw [same]
        exact ((ih (by omega)).mp behind).cons complete
      · intro message
        obtain ⟨field, rest, same, complete, others⟩ := message.uncons (List.cons_ne_nil _ _)
        have read := protobufField_eq_some_iff.mpr ⟨field, same, complete⟩
        have shorter := length_protobufField read
        exact ⟨rest, read, (ih (by omega)).mpr others⟩

theorem validProtobufWire_iff : validProtobufWire data = true ↔ data ≠ [] ∧ Message data := by
  rw [validProtobufWire, Bool.and_eq_true, decide_eq_true_eq, protobufFields_iff le_rfl]

end Wire

section Letters

def letter (n : Nat) : UInt8 := stdEncoding.letter n

def letters : Bytes → Bytes
  | [] => []
  | [a] => [letter (a.toNat / 4), letter (a.toNat % 4 * 16)]
  | [a, b] => [letter (a.toNat / 4), letter (a.toNat % 4 * 16 + b.toNat / 16), letter (b.toNat % 16 * 4)]
  | a :: b :: c :: rest =>
    letter (a.toNat / 4) :: letter (a.toNat % 4 * 16 + b.toNat / 16) :: letter (b.toNat % 16 * 4 + c.toNat / 64) ::
      letter (c.toNat % 64) :: letters rest

def paddingOf (data : Bytes) : Nat := (3 - data.length % 3) % 3

theorem encodeToString_eq (data : Bytes) :
    stdEncoding.encodeToString data = letters data ++ List.replicate (paddingOf data) (code '=') := by
  fun_induction letters data with
  | case1 | case2 | case3 => rfl
  | case4 a b c rest ih =>
    have same : paddingOf (a :: b :: c :: rest) = paddingOf rest := by
      simp only [paddingOf, List.length_cons]
      omega
    rw [Encoding.encodeToString, ih, same]
    rfl

theorem length_letters (data : Bytes) : (letters data).length + paddingOf data = (data.length + 2) / 3 * 4 := by
  fun_induction letters data with
  | case1 | case2 | case3 => simp [paddingOf]
  | case4 a b c rest ih =>
    simp only [List.length_cons, paddingOf] at ih ⊢
    omega

variable {ch : UInt8} {n : Nat}

theorem idxOf_letter (small : n < 64) : base64Alphabet.idxOf? (letter n) = some n := by
  have all : ∀ n : Fin 64, base64Alphabet.idxOf? (letter n.val) = some n.val := by decide +kernel
  exact all ⟨n, small⟩

theorem letter_of_idxOf (found : base64Alphabet.idxOf? ch = some n) : n < 64 ∧ letter n = ch := by
  have all : ∀ n : Fin 64, base64Alphabet[n.val]? = some (letter n.val) := by decide +kernel
  obtain ⟨inside, here, -⟩ := List.idxOf?_eq_some_iff.mp found
  have same := all ⟨n, inside⟩
  rw [List.getElem?_eq_getElem inside, Option.some_inj] at same
  exact ⟨inside, same.symm.trans here⟩

theorem plain_letter (small : n < 64) :
    (isAlnum (letter n) || letter n = code '+' || letter n = code '/') = true ∧ letter n ≠ code '=' := by
  have all : ∀ n : Fin 64, (isAlnum (letter n.val) || letter n.val = code '+' || letter n.val = code '/') = true ∧
      letter n.val ≠ code '=' := by decide
  exact all ⟨n, small⟩

theorem mem_letters {data : Bytes} (there : ch ∈ letters data) : ∃ n < 64, letter n = ch := by
  fun_induction letters data with
  | case1 => cases there
  | case2 a =>
    have size := a.toNat_lt
    simp only [List.mem_cons, List.not_mem_nil, or_false] at there
    rcases there with rfl | rfl
    · exact ⟨_, by omega, rfl⟩
    · exact ⟨_, by omega, rfl⟩
  | case3 a b =>
    have size := a.toNat_lt
    have size' := b.toNat_lt
    simp only [List.mem_cons, List.not_mem_nil, or_false] at there
    rcases there with rfl | rfl | rfl <;> exact ⟨_, by omega, rfl⟩
  | case4 a b c rest ih =>
    have size := a.toNat_lt
    have size' := b.toNat_lt
    have size'' := c.toNat_lt
    simp only [List.mem_cons] at there
    rcases there with rfl | rfl | rfl | rfl | behind
    · exact ⟨_, by omega, rfl⟩
    · exact ⟨_, by omega, rfl⟩
    · exact ⟨_, by omega, rfl⟩
    · exact ⟨_, by omega, rfl⟩
    · exact ih behind

end Letters

section Decoding

variable {s : Sextets} {A B C D : UInt8} {a b c d : Nat}

theorem push_eq (found : base64Alphabet.idxOf? A = some a) (accumulator bits : Nat) (decoded : Bytes) :
    Sextets.push ⟨accumulator, bits, decoded⟩ A =
      if 8 ≤ bits + 6 then
        some ⟨(accumulator * 64 + a) % 2 ^ 32, bits - 2, decoded ++ [UInt8.ofNat ((accumulator * 64 + a) % 2 ^ 32 / 2 ^ (bits - 2))]⟩
      else some ⟨(accumulator * 64 + a) % 2 ^ 32, bits + 6, decoded⟩ := by
  have small := (letter_of_idxOf found).1
  have joined : accumulator <<< 6 ||| a = accumulator * 64 + a := by
    rw [← Nat.shiftLeft_add_eq_or_of_lt small, Nat.shiftLeft_eq]
  have low : ∀ n : Nat, UInt8.ofNat (n &&& 0xff) = UInt8.ofNat n := by
    intro n
    apply UInt8.toNat_inj.mp
    rw [show n &&& 0xff = n % 256 from Nat.and_two_pow_sub_one_eq_mod _ 8, UInt8.toNat_ofNat', UInt8.toNat_ofNat']
    omega
  rw [Sextets.push, found]
  simp only [Option.bind_eq_bind, Option.bind_some, joined, low, Nat.shiftRight_eq_div_pow]
  rfl

theorem ofNat_congr {m n : Nat} (same : m % 256 = n % 256) : UInt8.ofNat m = UInt8.ofNat n := by
  apply UInt8.toNat_inj.mp
  rwa [UInt8.toNat_ofNat', UInt8.toNat_ofNat']

theorem push_zero (found : base64Alphabet.idxOf? A = some a) (accumulator : Nat) (decoded : Bytes) :
    ∃ left, Sextets.push ⟨accumulator, 0, decoded⟩ A = some ⟨left, 6, decoded⟩ ∧ left % 64 = a := by
  have small := (letter_of_idxOf found).1
  refine ⟨(accumulator * 64 + a) % 2 ^ 32, ?_, by omega⟩
  rw [push_eq found, if_neg (by omega)]

theorem push_six (found : base64Alphabet.idxOf? B = some b) {accumulator : Nat} (left : accumulator % 64 = a) (decoded : Bytes) :
    ∃ next, Sextets.push ⟨accumulator, 6, decoded⟩ B = some ⟨next, 4, decoded ++ [UInt8.ofNat (a * 4 + b / 16)]⟩ ∧
      next % 16 = b % 16 := by
  have small := (letter_of_idxOf found).1
  have byte : UInt8.ofNat ((accumulator * 64 + b) % 2 ^ 32 / 2 ^ (6 - 2)) = UInt8.ofNat (a * 4 + b / 16) := ofNat_congr (by omega)
  refine ⟨(accumulator * 64 + b) % 2 ^ 32, ?_, by omega⟩
  rw [push_eq found, if_pos (by omega), byte]

theorem push_four (found : base64Alphabet.idxOf? C = some c) {accumulator : Nat} (left : accumulator % 16 = b % 16) (decoded : Bytes) :
    ∃ next, Sextets.push ⟨accumulator, 4, decoded⟩ C = some ⟨next, 2, decoded ++ [UInt8.ofNat (b % 16 * 16 + c / 4)]⟩ ∧
      next % 4 = c % 4 := by
  have small := (letter_of_idxOf found).1
  have byte : UInt8.ofNat ((accumulator * 64 + c) % 2 ^ 32 / 2 ^ (4 - 2)) = UInt8.ofNat (b % 16 * 16 + c / 4) := ofNat_congr (by omega)
  refine ⟨(accumulator * 64 + c) % 2 ^ 32, ?_, by omega⟩
  rw [push_eq found, if_pos (by omega), byte]

theorem push_two (found : base64Alphabet.idxOf? D = some d) {accumulator : Nat} (left : accumulator % 4 = c % 4) (decoded : Bytes) :
    ∃ next, Sextets.push ⟨accumulator, 2, decoded⟩ D = some ⟨next, 0, decoded ++ [UInt8.ofNat (c % 4 * 64 + d)]⟩ := by
  have small := (letter_of_idxOf found).1
  have byte : UInt8.ofNat ((accumulator * 64 + d) % 2 ^ 32 / 2 ^ (2 - 2)) = UInt8.ofNat (c % 4 * 64 + d) := ofNat_congr (by omega)
  refine ⟨(accumulator * 64 + d) % 2 ^ 32, ?_⟩
  rw [push_eq found, if_pos (by omega), byte]

theorem pushes_two (first : base64Alphabet.idxOf? A = some a) (second : base64Alphabet.idxOf? B = some b) (accumulator : Nat)
    (decoded : Bytes) :
    ∃ left, [A, B].foldlM Sextets.push ⟨accumulator, 0, decoded⟩ = some ⟨left, 4, decoded ++ [UInt8.ofNat (a * 4 + b / 16)]⟩ ∧
      left % 16 = b % 16 := by
  obtain ⟨six, pushedFirst, rest⟩ := push_zero first accumulator decoded
  obtain ⟨four, pushedSecond, left⟩ := push_six second rest decoded
  exact ⟨four, by simp [pushedFirst, pushedSecond], left⟩

theorem pushes_three (first : base64Alphabet.idxOf? A = some a) (second : base64Alphabet.idxOf? B = some b)
    (third : base64Alphabet.idxOf? C = some c) (accumulator : Nat) (decoded : Bytes) :
    ∃ left, [A, B, C].foldlM Sextets.push ⟨accumulator, 0, decoded⟩ =
        some ⟨left, 2, decoded ++ [UInt8.ofNat (a * 4 + b / 16), UInt8.ofNat (b % 16 * 16 + c / 4)]⟩ ∧ left % 4 = c % 4 := by
  obtain ⟨four, pushed, rest⟩ := pushes_two first second accumulator decoded
  obtain ⟨two, pushedThird, left⟩ := push_four third rest (decoded ++ [UInt8.ofNat (a * 4 + b / 16)])
  refine ⟨two, ?_, left⟩
  rw [show [A, B, C] = [A, B] ++ [C] from rfl, List.foldlM_append, pushed]
  simp only [Option.bind_eq_bind, Option.bind_some, List.foldlM_cons, List.foldlM_nil, pushedThird, Option.pure_def, List.append_assoc,
    List.cons_append, List.nil_append]

theorem pushes_four (first : base64Alphabet.idxOf? A = some a) (second : base64Alphabet.idxOf? B = some b)
    (third : base64Alphabet.idxOf? C = some c) (fourth : base64Alphabet.idxOf? D = some d) (accumulator : Nat) (decoded : Bytes) :
    ∃ left, [A, B, C, D].foldlM Sextets.push ⟨accumulator, 0, decoded⟩ = some ⟨left, 0,
      decoded ++ [UInt8.ofNat (a * 4 + b / 16), UInt8.ofNat (b % 16 * 16 + c / 4), UInt8.ofNat (c % 4 * 64 + d)]⟩ := by
  obtain ⟨two, pushed, rest⟩ := pushes_three first second third accumulator decoded
  obtain ⟨left, pushedFourth⟩ := push_two fourth rest (decoded ++ [UInt8.ofNat (a * 4 + b / 16), UInt8.ofNat (b % 16 * 16 + c / 4)])
  refine ⟨left, ?_⟩
  rw [show [A, B, C, D] = [A, B, C] ++ [D] from rfl, List.foldlM_append, pushed]
  simp only [Option.bind_eq_bind, Option.bind_some, List.foldlM_cons, List.foldlM_nil, pushedFourth, Option.pure_def, List.append_assoc,
    List.cons_append, List.nil_append]

def Settled (s : Sextets) : Prop := ¬(s.bits ≠ 0 ∧ s.accumulator &&& (1 <<< s.bits - 1) ≠ 0)

theorem settled_four {accumulator : Nat} {decoded : Bytes} : Settled ⟨accumulator, 4, decoded⟩ ↔ accumulator % 16 = 0 := by
  have low : accumulator &&& 15 = accumulator % 16 := Nat.and_two_pow_sub_one_eq_mod _ 4
  simp [Settled, low]

theorem settled_two {accumulator : Nat} {decoded : Bytes} : Settled ⟨accumulator, 2, decoded⟩ ↔ accumulator % 4 = 0 := by
  have low : accumulator &&& 3 = accumulator % 4 := Nat.and_two_pow_sub_one_eq_mod _ 2
  simp [Settled, low]

theorem ofNat_eq {n : Nat} {byte : UInt8} (same : n = byte.toNat) : UInt8.ofNat n = byte := by rw [same, UInt8.ofNat_toNat]

theorem decode_letters (data : Bytes) (accumulator : Nat) (decoded : Bytes) :
    ∃ s, (letters data).foldlM Sextets.push ⟨accumulator, 0, decoded⟩ = some s ∧ Settled s ∧ s.decoded = decoded ++ data := by
  fun_induction letters data generalizing accumulator decoded with
  | case1 => exact ⟨⟨accumulator, 0, decoded⟩, rfl, fun left => left.1 rfl, (List.append_nil decoded).symm⟩
  | case2 x =>
    have size := x.toNat_lt
    have first := @idxOf_letter (x.toNat / 4) (by omega)
    have second := @idxOf_letter (x.toNat % 4 * 16) (by omega)
    obtain ⟨left, pushed, rest⟩ := pushes_two first second accumulator decoded
    refine ⟨_, pushed, settled_four.mpr (by omega), ?_⟩
    rw [ofNat_eq (show x.toNat / 4 * 4 + x.toNat % 4 * 16 / 16 = x.toNat by omega)]
  | case3 x y =>
    have size := x.toNat_lt
    have size' := y.toNat_lt
    have first := @idxOf_letter (x.toNat / 4) (by omega)
    have second := @idxOf_letter (x.toNat % 4 * 16 + y.toNat / 16) (by omega)
    have third := @idxOf_letter (y.toNat % 16 * 4) (by omega)
    obtain ⟨left, pushed, rest⟩ := pushes_three first second third accumulator decoded
    refine ⟨_, pushed, settled_two.mpr (by omega), ?_⟩
    rw [ofNat_eq (show x.toNat / 4 * 4 + (x.toNat % 4 * 16 + y.toNat / 16) / 16 = x.toNat by omega),
      ofNat_eq (show (x.toNat % 4 * 16 + y.toNat / 16) % 16 * 16 + y.toNat % 16 * 4 / 4 = y.toNat by omega)]
  | case4 x y z rest ih =>
    have size := x.toNat_lt
    have size' := y.toNat_lt
    have size'' := z.toNat_lt
    have first := @idxOf_letter (x.toNat / 4) (by omega)
    have second := @idxOf_letter (x.toNat % 4 * 16 + y.toNat / 16) (by omega)
    have third := @idxOf_letter (y.toNat % 16 * 4 + z.toNat / 64) (by omega)
    have fourth := @idxOf_letter (z.toNat % 64) (by omega)
    obtain ⟨left, pushed⟩ := pushes_four first second third fourth accumulator decoded
    rw [ofNat_eq (show x.toNat / 4 * 4 + (x.toNat % 4 * 16 + y.toNat / 16) / 16 = x.toNat by omega),
      ofNat_eq (show (x.toNat % 4 * 16 + y.toNat / 16) % 16 * 16 + (y.toNat % 16 * 4 + z.toNat / 64) / 4 = y.toNat by omega),
      ofNat_eq (show (y.toNat % 16 * 4 + z.toNat / 64) % 4 * 64 + z.toNat % 64 = z.toNat by omega)] at pushed
    obtain ⟨s, others, settled, whole⟩ := ih left (decoded ++ [x, y, z])
    refine ⟨s, ?_, settled, by simpa using whole⟩
    change ([_, _, _, _] ++ letters rest).foldlM _ _ = _
    rw [List.foldlM_append, pushed]
    exact others

theorem known_of_pushes {body : Bytes} {start : Sextets} (ran : body.foldlM Sextets.push start = some s) :
    ∀ ch ∈ body, ∃ n, base64Alphabet.idxOf? ch = some n := by
  induction body generalizing start with
  | nil => simp
  | cons ch rest ih =>
    rw [List.foldlM_cons] at ran
    obtain ⟨next, pushed, ran⟩ := Option.bind_eq_some_iff.mp ran
    obtain ⟨n, found, -⟩ := Option.bind_eq_some_iff.mp pushed
    exact List.forall_mem_cons.mpr ⟨⟨n, found⟩, ih ran⟩

theorem toNat_byte {n : Nat} (small : n < 256) : (UInt8.ofNat n).toNat = n := by
  rw [UInt8.toNat_ofNat', Nat.mod_eq_of_lt small]

theorem letters_of_decoded : ∀ (body : Bytes) {accumulator : Nat} {decoded : Bytes} {s : Sextets},
    body.foldlM Sextets.push ⟨accumulator, 0, decoded⟩ = some s → Settled s → body.length % 4 ≠ 1 →
      ∃ data, body = letters data ∧ s.decoded = decoded ++ data
  | [], accumulator, decoded, s, ran, settled, shape => by
    obtain rfl := Option.some_inj.mp ran
    exact ⟨[], rfl, (List.append_nil decoded).symm⟩
  | [A], accumulator, decoded, s, ran, settled, shape => absurd rfl shape
  | [A, B], accumulator, decoded, s, ran, settled, shape => by
    have known := known_of_pushes ran
    obtain ⟨a, first⟩ := known A (by simp)
    obtain ⟨b, second⟩ := known B (by simp)
    obtain ⟨smallA, rfl⟩ := letter_of_idxOf first
    obtain ⟨smallB, rfl⟩ := letter_of_idxOf second
    obtain ⟨left, pushed, rest⟩ := pushes_two first second accumulator decoded
    obtain rfl := Option.some_inj.mp (pushed.symm.trans ran)
    have zero := settled_four.mp settled
    refine ⟨[UInt8.ofNat (a * 4 + b / 16)], ?_, rfl⟩
    rw [letters, toNat_byte (by omega), show (a * 4 + b / 16) / 4 = a by omega, show (a * 4 + b / 16) % 4 * 16 = b by omega]
  | [A, B, C], accumulator, decoded, s, ran, settled, shape => by
    have known := known_of_pushes ran
    obtain ⟨a, first⟩ := known A (by simp)
    obtain ⟨b, second⟩ := known B (by simp)
    obtain ⟨c, third⟩ := known C (by simp)
    obtain ⟨smallA, rfl⟩ := letter_of_idxOf first
    obtain ⟨smallB, rfl⟩ := letter_of_idxOf second
    obtain ⟨smallC, rfl⟩ := letter_of_idxOf third
    obtain ⟨left, pushed, rest⟩ := pushes_three first second third accumulator decoded
    obtain rfl := Option.some_inj.mp (pushed.symm.trans ran)
    have zero := settled_two.mp settled
    refine ⟨[UInt8.ofNat (a * 4 + b / 16), UInt8.ofNat (b % 16 * 16 + c / 4)], ?_, rfl⟩
    rw [letters, toNat_byte (by omega), toNat_byte (by omega), show (a * 4 + b / 16) / 4 = a by omega,
      show (a * 4 + b / 16) % 4 * 16 + (b % 16 * 16 + c / 4) / 16 = b by omega, show (b % 16 * 16 + c / 4) % 16 * 4 = c by omega]
  | A :: B :: C :: D :: others, accumulator, decoded, s, ran, settled, shape => by
    have known := known_of_pushes ran
    obtain ⟨a, first⟩ := known A (by simp)
    obtain ⟨b, second⟩ := known B (by simp)
    obtain ⟨c, third⟩ := known C (by simp)
    obtain ⟨d, fourth⟩ := known D (by simp)
    obtain ⟨smallA, rfl⟩ := letter_of_idxOf first
    obtain ⟨smallB, rfl⟩ := letter_of_idxOf second
    obtain ⟨smallC, rfl⟩ := letter_of_idxOf third
    obtain ⟨smallD, rfl⟩ := letter_of_idxOf fourth
    obtain ⟨left, pushed⟩ := pushes_four first second third fourth accumulator decoded
    change ([_, _, _, _] ++ others).foldlM _ _ = _ at ran
    rw [List.foldlM_append, pushed] at ran
    obtain ⟨data, same, whole⟩ := letters_of_decoded others ran settled (by simp only [List.length_cons] at shape; omega)
    refine ⟨UInt8.ofNat (a * 4 + b / 16) :: UInt8.ofNat (b % 16 * 16 + c / 4) :: UInt8.ofNat (c % 4 * 64 + d) :: data, ?_, ?_⟩
    · rw [letters, toNat_byte (by omega), toNat_byte (by omega), toNat_byte (by omega), ← same, show (a * 4 + b / 16) / 4 = a by omega,
        show (a * 4 + b / 16) % 4 * 16 + (b % 16 * 16 + c / 4) / 16 = b by omega,
        show (b % 16 * 16 + c / 4) % 16 * 4 + (c % 4 * 64 + d) / 64 = c by omega, show (c % 4 * 64 + d) % 64 = d by omega]
    · rw [whole, List.append_assoc]
      rfl

end Decoding

section Acceptance

variable {value : Bytes}

theorem refused_iff {condition : Prop} [Decidable condition] {rest : Bool} :
    (if condition then false else rest) = true ↔ ¬condition ∧ rest = true := by
  by_cases held : condition <;> simp [held]

theorem accepted_iff {body : Bytes} {padding : Nat} (bare : code '=' ∉ body) :
    decodeAndValidateProtobufBase64 (body ++ List.replicate padding (code '=')) = true ↔
      (body.length + padding) % 4 = 0 ∧ padding ≤ 2 ∧
        ∃ s, body.foldlM Sextets.push {} = some s ∧ Settled s ∧ validProtobufWire s.decoded = true := by
  have front : (body ++ List.replicate padding (code '=')).takeWhile (fun ch => ch ≠ code '=') = body := by
    rw [List.takeWhile_append_of_pos fun ch there => by simpa using fun same : ch = code '=' => bare (same ▸ there)]
    cases padding <;> simp [List.replicate_succ]
  have plain : ∀ s, body.foldlM Sextets.push {} = some s → (body.all fun ch => isAlnum ch || ch = code '+' || ch = code '/') = true := by
    intro s ran
    rw [List.all_eq_true]
    intro ch there
    obtain ⟨n, found⟩ := known_of_pushes ran ch there
    obtain ⟨small, rfl⟩ := letter_of_idxOf found
    exact (plain_letter small).1
  rw [decodeAndValidateProtobufBase64]
  simp only [front, List.length_append, List.length_replicate, List.drop_left, Nat.add_sub_cancel_left, refused_iff]
  constructor
  · rintro ⟨filled, -, shape, accepted⟩
    cases ran : body.foldlM Sextets.push {} with
    | none => simp [ran] at accepted
    | some s =>
      simp only [ran, refused_iff] at accepted
      exact ⟨by omega, by omega, s, rfl, accepted⟩
  · rintro ⟨whole, short, s, ran, settled, wire⟩
    have some : body ++ List.replicate padding (code '=') ≠ [] := by
      intro empty
      obtain ⟨rfl, -⟩ := List.append_eq_nil_iff.mp empty
      obtain rfl := Option.some_inj.mp ran
      exact (validProtobufWire_iff.mp wire).1 rfl
    refine ⟨by simp [some, whole], ?_, by omega, ?_⟩
    · simp [plain s ran]
    · simp only [ran, refused_iff]
      exact ⟨settled, wire⟩

theorem exists_padding (accepted : decodeAndValidateProtobufBase64 value = true) :
    ∃ body padding, value = body ++ List.replicate padding (code '=') ∧ code '=' ∉ body := by
  rw [decodeAndValidateProtobufBase64] at accepted
  simp only [refused_iff] at accepted
  obtain ⟨-, marks, -⟩ := accepted
  have behind : ∀ ch ∈ value.drop (value.takeWhile fun ch => ch ≠ code '=').length, ch = code '=' := by
    simp only [Bool.not_eq_true', not_or, Bool.not_eq_false, List.all_eq_true, decide_eq_true_eq] at marks
    exact marks.1
  have whole : value = (value.takeWhile fun ch => ch ≠ code '=') ++ value.drop (value.takeWhile fun ch => ch ≠ code '=').length := by
    have cut := List.prefix_iff_eq_take.mp (List.takeWhile_prefix (l := value) fun ch => ch ≠ code '=')
    exact (List.take_append_drop _ value).symm.trans (congrArg (· ++ _) cut.symm)
  refine ⟨_, _, whole.trans (congrArg _ (List.eq_replicate_of_mem behind)), ?_⟩
  intro there
  simpa using List.mem_takeWhile_imp there

theorem accepts_iff_canonical : decodeAndValidateProtobufBase64 value = true ↔
    ∃ data, data ≠ [] ∧ Message data ∧ value = stdEncoding.encodeToString data := by
  have bare : ∀ data, code '=' ∉ letters data := by
    intro data there
    obtain ⟨n, small, same⟩ := mem_letters there
    exact (plain_letter small).2 same
  constructor
  · intro accepted
    obtain ⟨body, padding, rfl, absent⟩ := exists_padding accepted
    obtain ⟨whole, short, s, ran, settled, wire⟩ := (accepted_iff absent).mp accepted
    obtain ⟨data, rfl, decoded⟩ := letters_of_decoded body ran settled (by omega)
    obtain ⟨some, message⟩ := validProtobufWire_iff.mp wire
    rw [List.nil_append] at decoded
    rw [decoded] at some message
    have lengths := length_letters data
    have same : padding = paddingOf data := by
      rw [paddingOf] at lengths ⊢
      omega
    exact ⟨data, some, message, by rw [encodeToString_eq, same]⟩
  · rintro ⟨data, some, message, rfl⟩
    obtain ⟨s, ran, settled, decoded⟩ := decode_letters data 0 []
    have lengths := length_letters data
    rw [encodeToString_eq, accepted_iff (bare data)]
    refine ⟨by omega, ?_, s, ran, settled, ?_⟩
    · rw [paddingOf]
      omega
    · rw [decoded, List.nil_append]
      exact validProtobufWire_iff.mpr ⟨some, message⟩

theorem traffic_pattern_format (value : Bytes) :
    (decodeAndValidateProtobufBase64 value = true ↔ ∃ data, data ≠ [] ∧ Message data ∧ value = stdEncoding.encodeToString data) ∧
      ∀ data rest, protobufField data = some rest → rest.length < data.length :=
  ⟨accepts_iff_canonical, fun _ _ read => length_protobufField read⟩

end Acceptance

end SubConverter.Parser
