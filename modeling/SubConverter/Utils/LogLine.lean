import SubConverter.Lib.StdString
import SubConverter.Lib.Utf8Text
import SubConverter.Utils.RedactCuts

set_option autoImplicit false

namespace SubConverter.Utils.LogLine

open AsciiCuts
open Loops
open RedactLoops (find redactSensitiveLogText)

section Lines

-- Every character stands for one byte.
def kMaxRawLogContentBytes : Nat := 64 * 1024

def kMaxLogContentBytes : Nat := 16 * 1024

def kHex : Text := chars "0123456789ABCDEF"

def eventCharacter (ch : Char) : Bool := ('A' ≤ ch && ch ≤ 'Z') || ('0' ≤ ch && ch ≤ '9') || ch = '_'

def eventName (text : Text) : Text :=
  match find text 0 ' ' with
  | none => []
  | some separator =>
    if separator > 0 ∧ separator ≤ 64 ∧ (text.take separator).all eventCharacter then text.take separator ++ [' '] else []

def escape (ch : Char) : Text :=
  if ch = '\r' then chars "\\r"
  else if ch = '\n' then chars "\\n"
  else if ch = '\t' then chars "\\t"
  else if ch.toNat < 0x20 ∨ ch.toNat = 0x7f then
    chars "\\x" ++ [kHex.getD ((ch.toNat >>> 4) &&& 0x0f) '0', kHex.getD (ch.toNat &&& 0x0f) '0']
  else [ch]

def widthOf (lead : Char) : Nat :=
  if lead.toNat &&& 0xe0 = 0xc0 then 2
  else if lead.toNat &&& 0xf0 = 0xe0 then 3
  else if lead.toNat &&& 0xf8 = 0xf0 then 4
  else 1

def isContinuation (continuation : Char) : Bool := continuation.toNat &&& 0xc0 = 0x80

-- An invalid byte is a sequence of its own.
def sequenceWidth (escaped : Text) (cursor : Nat) (lead : Char) : Nat :=
  let width := widthOf lead
  let valid := cursor + width ≤ escaped.length && ((escaped.drop (cursor + 1)).take (width - 1)).all isContinuation
  if valid then width else 1

structure Sequences where
  cursor : Nat
  safe : Nat

-- A turn of the loop of `sanitizeLogLine`.
def nextSequence (escaped : Text) (limit : Nat) (s : Sequences) : Fueled (Turn Sequences Nat) :=
  match escaped[s.cursor]? with
  | none => pure (.done s.safe)
  | some lead =>
    if limit ≤ s.cursor then pure (.done s.safe)
    else
      let width := sequenceWidth escaped s.cursor lead
      if limit < s.cursor + width then pure (.done s.safe) else pure (.again ⟨s.cursor + width, s.cursor + width⟩)

def resize (text : Text) (count : Nat) : Text := text.take count ++ List.replicate (count - text.length) '\x00'

def oversizedMark (size : Nat) : Text := chars "<redacted oversized_log_content original_bytes=" ++ decimal size ++ ['>']

def truncationMark (size : Nat) : Text := chars "...[truncated original_bytes=" ++ decimal size ++ [']']

def sanitizeLogLine (text : Text) : Fueled Text :=
  if text.length > kMaxRawLogContentBytes then pure (eventName text ++ oversizedMark text.length)
  else do
    let redacted ← redactSensitiveLogText text
    let escaped := redacted.flatMap escape
    if escaped.length ≤ kMaxLogContentBytes then pure escaped
    else
      let suffix := truncationMark text.length
      let limit := if kMaxLogContentBytes > suffix.length then kMaxLogContentBytes - suffix.length else 0
      let safe ← loop (nextSequence escaped limit) ⟨0, 0⟩
      pure (resize escaped safe ++ suffix)

end Lines

section Escapes

variable {c : Char}

def Printable (c : Char) : Prop := 0x20 ≤ c.toNat ∧ c.toNat ≠ 0x7f

def Plain (c : Char) : Prop := 0x20 ≤ c.toNat ∧ c.toNat < 0x7f

instance (c : Char) : Decidable (Plain c) := inferInstanceAs (Decidable (_ ∧ _))

theorem printable_of_plain (plain : Plain c) : Printable c := ⟨plain.1, Nat.ne_of_lt plain.2⟩

theorem ascii_of_plain (plain : Plain c) : Ascii c := Nat.lt_succ_of_lt plain.2

theorem plain_literal {literal : Text} (all : (literal.all fun c => decide (Plain c)) = true) : ∀ c ∈ literal, Plain c := by
  simpa using all

theorem plain_digit (n : Nat) : Plain (kHex.getD n '0') := by
  by_cases inside : n < kHex.length
  · rw [List.getD_eq_getElem _ _ inside]
    exact plain_literal (by decide) _ (List.getElem_mem inside)
  · rw [List.getD_eq_default _ _ (Nat.le_of_not_lt inside)]
    decide

theorem plain_decimal (n : Nat) : ∀ c ∈ decimal n, Plain c := by
  intro c there
  have digit := isDigit_iff.mp (Nat.isDigit_of_mem_toDigits (by decide) (by decide) there)
  exact ⟨by omega, by omega⟩

theorem escape_ascii (ascii : Ascii c) : ∀ d ∈ escape c, Plain d := by
  rw [escape]
  split
  next => exact plain_literal (by decide)
  next =>
    split
    next => exact plain_literal (by decide)
    next =>
      split
      next => exact plain_literal (by decide)
      next =>
        split
        next =>
          rw [List.forall_mem_append, List.forall_mem_cons, List.forall_mem_singleton]
          exact ⟨plain_literal (by decide), plain_digit _, plain_digit _⟩
        next visible =>
          rw [List.forall_mem_singleton]
          rw [Ascii] at ascii
          exact ⟨by omega, by omega⟩

theorem escape_wide (wide : ¬Ascii c) : escape c = [c] := by
  have other {mark : Char} (ascii : Ascii mark) : c ≠ mark := fun same => wide (same ▸ ascii)
  rw [Ascii] at wide
  rw [escape, if_neg (other (by decide)), if_neg (other (by decide)), if_neg (other (by decide)), if_neg (by omega)]

theorem escaped_printable (text : Text) : ∀ c ∈ text.flatMap escape, Printable c := by
  intro c there
  obtain ⟨d, -, inside⟩ := List.mem_flatMap.mp there
  by_cases ascii : Ascii d
  · exact printable_of_plain (escape_ascii ascii c inside)
  · rw [escape_wide ascii, List.mem_singleton] at inside
    subst inside
    rw [Ascii] at ascii
    exact ⟨by omega, by omega⟩

theorem escaped_kind {Kind : Text → Prop} (kind : Cuttable Kind) {text : Text} (whole : Kind text) : Kind (text.flatMap escape) :=
  kind.flatMap (fun _ ascii => kind.ascii fun d there => ascii_of_plain (escape_ascii ascii d there))
    (fun _ wide => escape_wide wide) whole

end Escapes

section Cuts

variable {escaped : Text} {cursor limit : Nat} {lead : Char}

theorem masks : ∀ n < 256, (n &&& 0xe0 = 0xc0 ↔ 0xc0 ≤ n ∧ n < 0xe0) ∧ (n &&& 0xf0 = 0xe0 ↔ 0xe0 ≤ n ∧ n < 0xf0) ∧
    (n &&& 0xf8 = 0xf0 ↔ 0xf0 ≤ n ∧ n < 0xf8) ∧ (n &&& 0xc0 = 0x80 ↔ 0x80 ≤ n ∧ n < 0xc0) := by
  decide +kernel

theorem widthOf_leads {count : Nat} (leads : LeadByte lead count) : widthOf lead = count + 1 := by
  have small : lead.toNat < 256 := by
    rw [LeadByte, Ascii] at leads
    omega
  obtain ⟨two, three, four, -⟩ := masks lead.toNat small
  simp only [widthOf, two, three, four]
  rw [LeadByte, Ascii] at leads
  rcases leads with ⟨low, rfl⟩ | ⟨rfl, range⟩ | ⟨rfl, range⟩ | ⟨rfl, range⟩
  · rw [if_neg (by omega), if_neg (by omega), if_neg (by omega)]
  · rw [if_pos range]
  · rw [if_neg (by omega), if_pos range]
  · rw [if_neg (by omega), if_neg (by omega), if_pos range]

theorem isContinuation_follows {unit : Char} (follows : Follows unit) : isContinuation unit = true := by
  rw [isContinuation, decide_eq_true_eq, (masks unit.toNat (Nat.lt_trans follows.2 (by decide))).2.2.2]
  exact follows

theorem sequenceWidth_pos (escaped : Text) (cursor : Nat) (lead : Char) : 0 < sequenceWidth escaped cursor lead := by
  rw [sequenceWidth]
  split
  next =>
    rw [widthOf]
    split_ifs <;> decide
  next => exact Nat.one_pos

theorem sequenceWidth_within (lead : Char) (inside : cursor < escaped.length) :
    cursor + sequenceWidth escaped cursor lead ≤ escaped.length := by
  rw [sequenceWidth]
  split
  next valid =>
    rw [Bool.and_eq_true, decide_eq_true_eq] at valid
    exact valid.1
  next => exact inside

theorem sequenceWidth_utf8 (there : escaped[cursor]? = some lead) (before : IsUtf8 (escaped.take cursor))
    (behind : IsUtf8 (escaped.drop cursor)) : IsUtf8 (escaped.take (cursor + sequenceWidth escaped cursor lead)) ∧
      IsUtf8 (escaped.drop (cursor + sequenceWidth escaped cursor lead)) := by
  rw [Places.drop_eq_cons there] at behind
  obtain ⟨units, left, same, leads, follows, first, last⟩ := utf8_next behind
  have inside := Places.lt_of_get there
  have size := congrArg List.length same
  rw [List.length_drop, List.length_append] at size
  have all : units.all isContinuation = true := List.all_eq_true.mpr fun unit there => isContinuation_follows (follows unit there)
  have width : sequenceWidth escaped cursor lead = units.length + 1 := by
    rw [sequenceWidth, widthOf_leads leads, Nat.add_sub_cancel, same, List.take_left]
    simp only [all, Bool.and_true, decide_eq_true_eq]
    rw [if_pos (by omega)]
  have rest : escaped.drop cursor = lead :: units ++ left := by
    rw [Places.drop_eq_cons there, same, List.cons_append]
  rw [width, List.take_add, ← List.drop_drop, rest]
  have taken : (lead :: units ++ left).take (units.length + 1) = lead :: units := List.take_left' rfl
  have dropped : (lead :: units ++ left).drop (units.length + 1) = left := List.drop_left' rfl
  rw [taken, dropped]
  exact ⟨cuttable_utf8.append before first, last⟩

structure SafePlace (escaped : Text) (limit place : Nat) : Prop where
  below : place ≤ limit
  inside : place ≤ escaped.length
  before : IsUtf8 escaped → IsUtf8 (escaped.take place)

structure Between (escaped : Text) (limit : Nat) (s : Sequences) : Prop where
  same : s.safe = s.cursor
  place : SafePlace escaped limit s.cursor
  behind : IsUtf8 escaped → IsUtf8 (escaped.drop s.cursor)

theorem sequences_end (escaped : Text) (limit : Nat) :
    ∃ safe, Halts (loop (nextSequence escaped limit) ⟨0, 0⟩) safe ∧ SafePlace escaped limit safe := by
  have start : Between escaped limit ⟨0, 0⟩ := ⟨rfl, ⟨Nat.zero_le _, Nat.zero_le _, fun _ => cuttable_utf8.nil⟩, fun valid => valid⟩
  refine Halts.loop_keeps (fun s => escaped.length - s.cursor) (Between escaped limit) _ ?_ start
  intro s kept
  have leaves : SafePlace escaped limit s.safe := by
    rw [kept.same]
    exact kept.place
  cases there : escaped[s.cursor]? with
  | none =>
    refine .inl ⟨s.safe, ?_, leaves⟩
    simp only [nextSequence, there]
    exact Halts.pure _
  | some lead =>
    by_cases full : limit ≤ s.cursor
    · refine .inl ⟨s.safe, ?_, leaves⟩
      simp only [nextSequence, there, if_pos full]
      exact Halts.pure _
    · by_cases wide : limit < s.cursor + sequenceWidth escaped s.cursor lead
      · refine .inl ⟨s.safe, ?_, leaves⟩
        simp only [nextSequence, there, if_neg full, if_pos wide]
        exact Halts.pure _
      · have first := Places.lt_of_get there
        have positive := sequenceWidth_pos escaped s.cursor lead
        have within := sequenceWidth_within lead first
        have valid (utf8 : IsUtf8 escaped) := sequenceWidth_utf8 there (kept.place.before utf8) (kept.behind utf8)
        refine .inr ⟨⟨s.cursor + sequenceWidth escaped s.cursor lead, s.cursor + sequenceWidth escaped s.cursor lead⟩, ?_,
          ⟨rfl, ⟨Nat.le_of_not_lt wide, within, fun utf8 => (valid utf8).1⟩, fun utf8 => (valid utf8).2⟩, ?_⟩
        · simp only [nextSequence, there, if_neg full, if_neg wide]
          exact Halts.pure _
        · dsimp only
          omega

end Cuts

section Sanitized

theorem length_decimal {n : Nat} (fits : n < npos) : (decimal n).length ≤ 20 := by
  rw [npos] at fits
  exact Nat.toDigits_length 10 n 20 (by decide) (by omega)

theorem plain_event {c : Char} (character : eventCharacter c = true) : Plain c := by
  have ranges : ((65 ≤ c.val.toNat ∧ c.val.toNat ≤ 90) ∨ (48 ≤ c.val.toNat ∧ c.val.toNat ≤ 57)) ∨ c = '_' := by
    simpa [eventCharacter, Char.le_def, UInt32.le_iff_toNat_le] using character
  rcases ranges with range | rfl
  · change 0x20 ≤ c.val.toNat ∧ c.val.toNat < 0x7f
    omega
  · decide

theorem eventName_plain (text : Text) : (∀ c ∈ eventName text, Plain c) ∧ (eventName text).length ≤ 65 := by
  rw [eventName]
  split
  next => exact ⟨by simp, by simp⟩
  next separator _ =>
    split
    next named =>
      obtain ⟨-, short, all⟩ := named
      constructor
      · rw [List.forall_mem_append, List.forall_mem_singleton]
        refine ⟨fun c there => ?_, by decide⟩
        exact plain_event (List.all_eq_true.mp all c there)
      · rw [List.length_append, List.length_take, List.length_singleton]
        omega
    next => exact ⟨by simp, by simp⟩

structure SafeLine (text line : Text) : Prop where
  printable : ∀ c ∈ line, Printable c
  bounded : line.length ≤ kMaxLogContentBytes
  bytes : IsBytes text → IsBytes line
  utf8 : IsUtf8 text → IsUtf8 line

theorem safe_of_plain {text line : Text} (plain : ∀ c ∈ line, Plain c) (bounded : line.length ≤ kMaxLogContentBytes) :
    SafeLine text line := by
  have ascii : ∀ c ∈ line, Ascii c := fun c there => ascii_of_plain (plain c there)
  exact ⟨fun c there => printable_of_plain (plain c there), bounded, fun _ => cuttable_bytes.ascii ascii,
    fun _ => cuttable_utf8.ascii ascii⟩

theorem plain_mark {front : Text} {last : Char} (n : Nat) (first : ∀ c ∈ front, Plain c) (plain : Plain last) :
    ∀ c ∈ front ++ decimal n ++ [last], Plain c := by
  simp only [List.forall_mem_append, List.forall_mem_singleton]
  exact ⟨⟨first, plain_decimal n⟩, plain⟩

theorem length_mark {front : Text} {last : Char} {n : Nat} (fits : n < npos) :
    (front ++ decimal n ++ [last]).length ≤ front.length + 21 := by
  have digits := length_decimal fits
  rw [List.length_append, List.length_append, List.length_singleton]
  omega

theorem oversized_safe {text : Text} (fits : text.length < npos) : SafeLine text (eventName text ++ oversizedMark text.length) := by
  obtain ⟨plain, short⟩ := eventName_plain text
  refine safe_of_plain ?_ ?_
  · rw [List.forall_mem_append]
    exact ⟨plain, plain_mark _ (plain_literal (by decide)) (by decide)⟩
  · have mark : (oversizedMark text.length).length ≤ 47 + 21 := length_mark fits
    rw [List.length_append, kMaxLogContentBytes]
    omega

theorem truncated_safe {text escaped suffix : Text} {safe : Nat} (printable : ∀ c ∈ escaped, Printable c)
    (bytes : IsBytes text → IsBytes escaped) (utf8 : IsUtf8 text → IsUtf8 escaped) (plain : ∀ c ∈ suffix, Plain c)
    (short : suffix.length ≤ kMaxLogContentBytes) (place : SafePlace escaped (kMaxLogContentBytes - suffix.length) safe) :
    SafeLine text (resize escaped safe ++ suffix) := by
  have kept : resize escaped safe = escaped.take safe := by
    rw [resize, Nat.sub_eq_zero_of_le place.inside, List.replicate_zero, List.append_nil]
  have ascii : ∀ c ∈ suffix, Ascii c := fun c there => ascii_of_plain (plain c there)
  rw [kept]
  constructor
  · rw [List.forall_mem_append]
    exact ⟨fun c there => printable c (List.mem_of_mem_take there), fun c there => printable_of_plain (plain c there)⟩
  · have below := place.below
    rw [List.length_append, List.length_take]
    omega
  · intro all
    exact cuttable_bytes.append (fun c there => bytes all c (List.mem_of_mem_take there)) (cuttable_bytes.ascii ascii)
  · intro valid
    exact cuttable_utf8.append (place.before (utf8 valid)) (cuttable_utf8.ascii ascii)

theorem sanitizeLogLine_ends {text : Text} (fits : text.length < npos) :
    ∃ line, Halts (sanitizeLogLine text) line ∧ SafeLine text line := by
  rw [sanitizeLogLine]
  split
  next => exact ⟨_, Halts.pure _, oversized_safe fits⟩
  next =>
    have printable := escaped_printable (Redact.redactSensitiveLogText text)
    have bytes : IsBytes text → IsBytes _ := fun all =>
      escaped_kind cuttable_bytes (RedactLoops.redactSensitiveLogText_kind cuttable_bytes all)
    have utf8 : IsUtf8 text → IsUtf8 _ := fun valid =>
      escaped_kind cuttable_utf8 (RedactLoops.redactSensitiveLogText_kind cuttable_utf8 valid)
    by_cases fits' : ((Redact.redactSensitiveLogText text).flatMap escape).length ≤ kMaxLogContentBytes
    · refine ⟨_, Halts.bind (RedactLoops.redactSensitiveLogText_ends text) ?_, printable, fits', bytes, utf8⟩
      simp only [if_pos fits']
      exact Halts.pure _
    · have plain : ∀ c ∈ truncationMark text.length, Plain c := plain_mark _ (plain_literal (by decide)) (by decide)
      have size : (truncationMark text.length).length ≤ 29 + 21 := length_mark fits
      have room : kMaxLogContentBytes > (truncationMark text.length).length := Nat.lt_of_le_of_lt size (by decide)
      obtain ⟨safe, ends, place⟩ := sequences_end ((Redact.redactSensitiveLogText text).flatMap escape)
        (kMaxLogContentBytes - (truncationMark text.length).length)
      have line := truncated_safe printable bytes utf8 plain room.le place
      refine ⟨_, Halts.bind (RedactLoops.redactSensitiveLogText_ends text) ?_, line⟩
      simp only [if_neg fits', if_pos room]
      exact Halts.bind ends (Halts.pure _)

theorem sanitizeLogLine_safe (bytes : StdString UInt8) :
    ∃ line : List UInt8, Halts (sanitizeLogLine (ofBytes bytes.text)) (ofBytes line) ∧ (∀ byte ∈ line, 0x20 ≤ byte ∧ byte ≠ 0x7f) ∧
      line.length ≤ 16384 ∧ (bytes.text.toByteArray.IsValidUTF8 → line.toByteArray.IsValidUTF8) := by
  have fits : (ofBytes bytes.text).length < npos := by
    rw [ofBytes, List.length_map]
    exact bytes.fits
  obtain ⟨line, ends, safe⟩ := sanitizeLogLine_ends fits
  obtain ⟨line, rfl⟩ := exists_bytes (safe.bytes (isBytes_ofBytes _))
  refine ⟨line, ends, ?_, ?_, ?_⟩
  · intro byte there
    have printable := safe.printable _ (List.mem_map_of_mem there)
    rw [Printable, toNat_ofUInt8] at printable
    exact ⟨UInt8.le_iff_toNat_le.mpr printable.1, fun same => printable.2 (congrArg UInt8.toNat same)⟩
  · have bounded := safe.bounded
    rwa [ofBytes, List.length_map] at bounded
  · rw [← isUtf8_ofBytes_iff, ← isUtf8_ofBytes_iff]
    exact safe.utf8

end Sanitized

end SubConverter.Utils.LogLine
