import SubConverter.Lib.AsciiCuts

set_option autoImplicit false

namespace SubConverter.AsciiCuts

/-! Texts whose characters stand for bytes, and UTF-8 among them. -/

variable {text : Text} {c : Char}

def ofBytes (bytes : List UInt8) : Text := bytes.map Char.ofUInt8

section Bytes

theorem toNat_ofUInt8 (byte : UInt8) : (Char.ofUInt8 byte).toNat = byte.toNat := UInt8.toNat_toUInt32 byte

theorem ofBytes_inj {first second : List UInt8} : ofBytes first = ofBytes second ↔ first = second := by
  refine List.map_inj_right fun byte other same => ?_
  have values := congrArg Char.toNat same
  rw [toNat_ofUInt8, toNat_ofUInt8] at values
  exact UInt8.toNat_inj.mp values

def IsBytes (text : Text) : Prop := ∀ c ∈ text, c.toNat < 256

theorem isBytes_ofBytes (bytes : List UInt8) : IsBytes (ofBytes bytes) := by
  intro c there
  obtain ⟨byte, -, rfl⟩ := List.mem_map.mp there
  rw [toNat_ofUInt8]
  exact byte.toNat_lt

theorem exists_bytes (bytes : IsBytes text) : ∃ all : List UInt8, text = ofBytes all := by
  refine ⟨text.map fun c => UInt8.ofNat c.toNat, ?_⟩
  rw [ofBytes, List.map_map]
  conv_lhs => rw [← List.map_id text]
  refine List.map_congr_left fun c there => eq_of_toNat ?_
  rw [Function.comp_apply, toNat_ofUInt8, UInt8.toNat_ofNat', Nat.mod_eq_of_lt (bytes c there)]
  rfl

theorem cuttable_bytes : Cuttable IsBytes where
  nil := by simp [IsBytes]
  append := by
    intro front back first last
    exact List.forall_mem_append.mpr ⟨first, last⟩
  single := by
    intro c ascii
    rw [IsBytes, List.forall_mem_singleton]
    exact Nat.lt_trans ascii (by decide)
  cut := by
    intro front back c _ whole
    rw [IsBytes, List.forall_mem_append, List.forall_mem_cons] at whole
    exact ⟨whole.1, whole.2.2⟩

end Bytes

section Utf8

def encode (c : Char) : Text := ofBytes (String.utf8EncodeChar c)

def IsUtf8 (text : Text) : Prop := ∃ cs : List Char, text = cs.flatMap encode

theorem isUtf8_ofBytes_iff (bytes : List UInt8) : IsUtf8 (ofBytes bytes) ↔ bytes.toByteArray.IsValidUTF8 := by
  have whole (cs : List Char) : cs.flatMap encode = ofBytes (cs.flatMap String.utf8EncodeChar) := by
    rw [ofBytes, List.map_flatMap]
    rfl
  constructor
  · intro valid
    obtain ⟨cs, same⟩ := valid
    rw [whole, ofBytes_inj] at same
    exact ⟨cs, by rw [same]; rfl⟩
  · intro valid
    obtain ⟨cs, same⟩ := valid
    refine ⟨cs, ?_⟩
    rw [whole, ofBytes_inj]
    exact List.toByteArray_inj.mp same

theorem toNat_unit {n : Nat} (small : n < 256) : (Char.ofUInt8 (UInt8.ofNat n)).toNat = n := by
  rw [toNat_ofUInt8, UInt8.toNat_ofNat', Nat.mod_eq_of_lt small]

theorem encode_ascii (ascii : Ascii c) : encode c = [c] := by
  have small : c.val.toNat ≤ 0x7f := Nat.le_of_lt_succ ascii
  rw [encode, String.utf8EncodeChar, if_pos small, ofBytes, List.map_singleton, List.singleton_inj]
  exact eq_of_toNat (toNat_unit (Nat.lt_trans ascii (by decide)))

def LeadByte (lead : Char) (count : Nat) : Prop :=
  (Ascii lead ∧ count = 0) ∨ (count = 1 ∧ 0xc0 ≤ lead.toNat ∧ lead.toNat < 0xe0) ∨
    (count = 2 ∧ 0xe0 ≤ lead.toNat ∧ lead.toNat < 0xf0) ∨ (count = 3 ∧ 0xf0 ≤ lead.toNat ∧ lead.toNat < 0xf8)

def Follows (unit : Char) : Prop := 0x80 ≤ unit.toNat ∧ unit.toNat < 0xc0

theorem follows_unit {n : Nat} (low : 0x80 ≤ n) (high : n < 0xc0) : Follows (Char.ofUInt8 (UInt8.ofNat n)) := by
  rw [Follows, toNat_unit (by omega)]
  exact ⟨low, high⟩

theorem encode_wide (wide : ¬Ascii c) : ∃ lead rest, encode c = lead :: rest ∧ ¬Ascii lead ∧ LeadByte lead rest.length ∧
    ∀ unit ∈ rest, Follows unit := by
  have large : ¬c.val.toNat ≤ 0x7f := fun small => wide (Nat.lt_succ_of_le small)
  rw [encode, String.utf8EncodeChar, if_neg large]
  split
  next =>
    refine ⟨_, _, rfl, ?_, .inr (.inl ⟨rfl, ?_⟩), ?_⟩
    · rw [Ascii, toNat_unit (by omega)]
      omega
    · rw [toNat_unit (by omega)]
      omega
    · rw [List.map_singleton, List.forall_mem_singleton]
      exact follows_unit (by omega) (by omega)
  next =>
    split
    next =>
      refine ⟨_, _, rfl, ?_, .inr (.inr (.inl ⟨rfl, ?_⟩)), ?_⟩
      · rw [Ascii, toNat_unit (by omega)]
        omega
      · rw [toNat_unit (by omega)]
        omega
      · rw [List.map_cons, List.map_singleton, List.forall_mem_cons, List.forall_mem_singleton]
        exact ⟨follows_unit (by omega) (by omega), follows_unit (by omega) (by omega)⟩
    next =>
      refine ⟨_, _, rfl, ?_, .inr (.inr (.inr ⟨rfl, ?_⟩)), ?_⟩
      · rw [Ascii, toNat_unit (by omega)]
        omega
      · rw [toNat_unit (by omega)]
        omega
      · rw [List.map_cons, List.map_cons, List.map_singleton, List.forall_mem_cons, List.forall_mem_cons, List.forall_mem_singleton]
        exact ⟨follows_unit (by omega) (by omega), follows_unit (by omega) (by omega), follows_unit (by omega) (by omega)⟩

theorem wide_units (wide : ¬Ascii c) : ∀ unit ∈ encode c, ¬Ascii unit := by
  obtain ⟨lead, rest, same, other, -, behind⟩ := encode_wide wide
  rw [same, List.forall_mem_cons]
  refine ⟨other, fun unit there => ?_⟩
  have range := behind unit there
  rw [Follows] at range
  rw [Ascii]
  omega

theorem encode_units (c : Char) : ∃ lead rest, encode c = lead :: rest ∧ LeadByte lead rest.length ∧ ∀ unit ∈ rest, Follows unit := by
  by_cases ascii : Ascii c
  · exact ⟨c, [], encode_ascii ascii, .inl ⟨ascii, rfl⟩, by simp⟩
  · obtain ⟨lead, rest, same, -, leads, behind⟩ := encode_wide ascii
    exact ⟨lead, rest, same, leads, behind⟩

theorem utf8_next {lead : Char} {rest : Text} (valid : IsUtf8 (lead :: rest)) : ∃ units left, rest = units ++ left ∧
    LeadByte lead units.length ∧ (∀ unit ∈ units, Follows unit) ∧ IsUtf8 (lead :: units) ∧ IsUtf8 left := by
  obtain ⟨cs, whole⟩ := valid
  cases cs with
  | nil => cases whole
  | cons c cs =>
    obtain ⟨first, units, same, leads, behind⟩ := encode_units c
    rw [List.flatMap_cons, same, List.cons_append] at whole
    obtain ⟨rfl, parts⟩ := List.cons.inj whole
    exact ⟨units, _, parts, leads, behind, ⟨[c], by rw [List.flatMap_singleton, same]⟩, cs, rfl⟩

theorem utf8_cut {front back : Text} (ascii : Ascii c) {cs : List Char} (whole : cs.flatMap encode = front ++ c :: back) :
    IsUtf8 front ∧ IsUtf8 back := by
  induction cs generalizing front with
  | nil => simp at whole
  | cons d rest ih =>
    rw [List.flatMap_cons] at whole
    rcases List.append_eq_append_iff.mp whole with ⟨more, same, tail⟩ | ⟨more, same, tail⟩
    · -- The character is among the rest.
      obtain ⟨⟨cs, first⟩, last⟩ := ih tail
      exact ⟨⟨d :: cs, by rw [List.flatMap_cons, ← first, same]⟩, last⟩
    · cases more with
      | nil =>
        obtain ⟨⟨cs, first⟩, last⟩ := @ih [] tail.symm
        exact ⟨⟨[d], by simpa using same.symm⟩, last⟩
      | cons e more =>
        obtain ⟨rfl, behind⟩ := List.cons.inj tail
        have inside : c ∈ encode d := by
          rw [same]
          simp
        have own : Ascii d := by
          by_contra wide
          exact wide_units wide c inside ascii
        rw [encode_ascii own] at same
        obtain ⟨rfl, alone⟩ : front = [] ∧ [d] = c :: more := by
          cases front with
          | nil => exact ⟨rfl, same⟩
          | cons f front => simp at same
        have none' : more = [] := (List.cons.inj alone).2.symm
        rw [none'] at behind
        exact ⟨⟨[], rfl⟩, ⟨rest, behind⟩⟩

theorem cuttable_utf8 : Cuttable IsUtf8 where
  nil := ⟨[], rfl⟩
  append := by
    intro front back first last
    obtain ⟨cs, rfl⟩ := first
    obtain ⟨ds, rfl⟩ := last
    exact ⟨cs ++ ds, List.flatMap_append.symm⟩
  single := by
    intro c ascii
    exact ⟨[c], by rw [List.flatMap_singleton, encode_ascii ascii]⟩
  cut := by
    intro front back c ascii whole
    obtain ⟨cs, same⟩ := whole
    exact utf8_cut ascii same.symm

end Utf8

end SubConverter.AsciiCuts
