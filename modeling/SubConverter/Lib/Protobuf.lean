import SubConverter.Lib.Wire

set_option autoImplicit false

namespace SubConverter.Protobuf

open Wire (Bytes)

/-! The wire format of Protocol Buffers. -/

section Varints

def groupsValue : Bytes → Nat
  | [] => 0
  | byte :: rest => byte.toNat % 128 + 128 * groupsValue rest

-- The high bit is set on every byte but the last one.
def Grouped (text : Bytes) : Prop :=
  ∃ front last, text = front ++ [last] ∧ (∀ byte ∈ front, 128 ≤ byte.toNat) ∧ last.toNat < 128

structure Varint (text : Bytes) (value : Nat) : Prop where
  grouped : Grouped text
  short : text.length ≤ 10
  fits : value < 2 ^ 64
  same : groupsValue text = value

variable {byte : UInt8} {text rest : Bytes} {value : Nat}

theorem grouped_singleton (last : byte.toNat < 128) : Grouped [byte] := ⟨[], byte, rfl, by simp, last⟩

theorem Grouped.cons (more : 128 ≤ byte.toNat) (grouped : Grouped rest) : Grouped (byte :: rest) := by
  obtain ⟨front, last, rfl, others, final⟩ := grouped
  exact ⟨byte :: front, last, rfl, List.forall_mem_cons.mpr ⟨more, others⟩, final⟩

theorem Grouped.ne_nil (grouped : Grouped text) : text ≠ [] := by
  obtain ⟨front, last, rfl, -⟩ := grouped
  simp

theorem grouped_cons_iff : Grouped (byte :: rest) ↔ (byte.toNat < 128 ∧ rest = []) ∨ (128 ≤ byte.toNat ∧ Grouped rest) := by
  constructor
  · rintro ⟨front, last, same, others, final⟩
    cases front with
    | nil =>
      obtain ⟨rfl, rfl⟩ := List.cons_eq_cons.mp same
      exact .inl ⟨final, rfl⟩
    | cons first front =>
      obtain ⟨rfl, rfl⟩ := List.cons_eq_cons.mp same
      obtain ⟨here, behind⟩ := List.forall_mem_cons.mp others
      exact .inr ⟨here, front, last, rfl, behind, final⟩
  · rintro (⟨final, rfl⟩ | ⟨more, grouped⟩)
    · exact grouped_singleton final
    · exact grouped.cons more

end Varints

section Fields

def Tag (text : Bytes) (type : Nat) : Prop := ∃ number, 1 ≤ number ∧ number < 2 ^ 29 ∧ Varint text (8 * number + type)

inductive Field : Bytes → Prop where
  | varint {tag text : Bytes} {value : Nat} : Tag tag 0 → Varint text value → Field (tag ++ text)
  | fixed64 {tag data : Bytes} : Tag tag 1 → data.length = 8 → Field (tag ++ data)
  | delimited {tag text data : Bytes} : Tag tag 2 → Varint text data.length → Field (tag ++ (text ++ data))
  | fixed32 {tag data : Bytes} : Tag tag 5 → data.length = 4 → Field (tag ++ data)

def Message (data : Bytes) : Prop := ∃ fields : List Bytes, data = fields.flatten ∧ ∀ field ∈ fields, Field field

variable {field rest data : Bytes} {type : Nat}

theorem Tag.ne_nil {tag : Bytes} (tagged : Tag tag type) : tag ≠ [] := by
  obtain ⟨number, -, -, read⟩ := tagged
  exact read.grouped.ne_nil

theorem Field.ne_nil (complete : Field field) : field ≠ [] := by
  cases complete with
  | varint tagged _ | fixed64 tagged _ | delimited tagged _ | fixed32 tagged _ => simp [tagged.ne_nil]

theorem message_nil : Message [] := ⟨[], rfl, by simp⟩

theorem Message.cons (complete : Field field) (message : Message rest) : Message (field ++ rest) := by
  obtain ⟨fields, rfl, others⟩ := message
  exact ⟨field :: fields, rfl, List.forall_mem_cons.mpr ⟨complete, others⟩⟩

theorem Message.uncons (message : Message data) (some : data ≠ []) : ∃ field rest, data = field ++ rest ∧ Field field ∧ Message rest := by
  obtain ⟨fields, rfl, all⟩ := message
  cases fields with
  | nil => exact absurd rfl some
  | cons field fields =>
    obtain ⟨complete, others⟩ := List.forall_mem_cons.mp all
    exact ⟨field, fields.flatten, rfl, complete, fields, rfl, others⟩

end Fields

end SubConverter.Protobuf
