import Mathlib.Data.List.TakeWhile
import SubConverter.Lib.Cursor
import SubConverter.Lib.Delimited

set_option autoImplicit false

namespace SubConverter.Generator.YamlScalars

open Cursor

section Scanners

/-- A character that `allDigitsInBase` lets pass. -/
def isDigitInBase (base : Nat) (c : Char) : Bool :=
  if c.isDigit then c.toNat - 48 < base
  else base = 16 && (('a' ≤ c && c ≤ 'f') || ('A' ≤ c && c ≤ 'F'))

def allDigitsInBase (value : Text) (start base : Nat) : Option Bool :=
  if start = value.length then some false else allFrom value (isDigitInBase base) (value.length - start) start

def isSign (c : Char) : Bool := c = '+' || c = '-'

-- The base that the letter behind a leading zero stands for.
def baseOf (letter : Char) : Option Nat :=
  if letter = 'x' ∨ letter = 'X' then some 16
  else if letter = 'o' ∨ letter = 'O' then some 8
  else if letter = 'b' ∨ letter = 'B' then some 2
  else none

def baseAt (plain : Text) (pos : Nat) : Option (Option Nat) :=
  if pos + 2 ≤ plain.length then do
    let zero ← plain[pos]?
    if zero = '0' then do
      let letter ← plain[pos + 1]?
      some (baseOf letter)
    else some none
  else some none

def skipDigits (plain : Text) (pos : Nat) : Option Nat := skipWhile plain Char.isDigit (plain.length - pos) pos

/-- The end of `isYamlNumericScalar` behind the mantissa. -/
def exponentFrom (plain : Text) (pos : Nat) : Option Bool := do
  if ← peek plain pos fun c => c = 'e' || c = 'E' then
    let signed ← peek plain (pos + 1) isSign
    let exponentStart := if signed then pos + 2 else pos + 1
    let stop ← skipDigits plain exponentStart
    if stop = exponentStart then some false else some (decide (stop = plain.length))
  else some (decide (pos = plain.length))

def decimalFrom (plain : Text) (start : Nat) : Option Bool := do
  let pos ← skipDigits plain start
  if ← peek plain pos (· = '.') then
    let stop ← skipDigits plain (pos + 1)
    if start < pos ∨ pos + 1 < stop then exponentFrom plain stop else some false
  else if start < pos then exponentFrom plain pos
  else some false

def isYamlNumericScalar (value : Text) : Option Bool :=
  if value = [] then some false
  else do
    let first ← value[0]?
    if !first.isDigit && first ≠ '+' && first ≠ '-' && first ≠ '.' then some false
    else do
      let plain := value.filter (· ≠ '_')
      let sign ← plain[0]?
      let pos := if isSign sign then 1 else 0
      if isSign sign ∧ pos = plain.length then some false
      else do
        let base ← baseAt plain pos
        match base with
        | some base => allDigitsInBase plain (pos + 2) base
        | none => decimalFrom plain pos

def isYamlTimestampScalar (value : Text) : Option Bool :=
  if value.length < 8 then some false
  else do
    let y₀ ← value[0]?
    let y₁ ← value[1]?
    let y₂ ← value[2]?
    let y₃ ← value[3]?
    let dash ← value[4]?
    if !(y₀.isDigit && y₁.isDigit && y₂.isDigit && y₃.isDigit && dash = '-') then some false
    else do
      let pos ← skipWhile value Char.isDigit 2 5
      if pos = 5 ∨ pos = value.length then some false
      else do
        let dash ← value[pos]?
        if dash ≠ '-' then some false
        else do
          let stop ← skipWhile value Char.isDigit 2 (pos + 1)
          if stop = pos + 1 then some false
          else if stop = value.length then some true
          else do
            let c ← value[stop]?
            some (c = 'T' || c = 't' || c = ' ')

def resolvedLiterals : List Text :=
  ["", "~", "null", "Null", "NULL", "true", "True", "TRUE", "false", "False", "FALSE", ".nan", ".NaN", ".NAN", ".inf", ".Inf",
    ".INF", "+.inf", "+.Inf", "+.INF", "-.inf", "-.Inf", "-.INF", "<<"].map chars

/-- Nothing where a scanner would read behind the end. -/
def requiresExplicitStringStyle (value : Text) : Option Bool :=
  if value ∈ resolvedLiterals then some true
  else do
    if ← isYamlNumericScalar value then some true else isYamlTimestampScalar value

end Scanners

section Forms

inductive BasedForm : Text → Prop where
  | hexadecimal {letter : Char} {digits : Text} (marked : letter = 'x' ∨ letter = 'X') (present : digits ≠ [])
    (fits : ∀ c ∈ digits, isDigitInBase 16 c = true) : BasedForm ('0' :: letter :: digits)
  | octal {letter : Char} {digits : Text} (marked : letter = 'o' ∨ letter = 'O') (present : digits ≠ [])
    (fits : ∀ c ∈ digits, isDigitInBase 8 c = true) : BasedForm ('0' :: letter :: digits)
  | binary {letter : Char} {digits : Text} (marked : letter = 'b' ∨ letter = 'B') (present : digits ≠ [])
    (fits : ∀ c ∈ digits, isDigitInBase 2 c = true) : BasedForm ('0' :: letter :: digits)

def Digits (text : Text) : Prop := ∀ c ∈ text, c.isDigit = true

inductive ExponentForm : Text → Prop where
  | missing : ExponentForm []
  | plain {letter : Char} {digits : Text} (marked : letter = 'e' ∨ letter = 'E') (present : digits ≠ []) (fits : Digits digits) :
    ExponentForm (letter :: digits)
  | signed {letter sign : Char} {digits : Text} (marked : letter = 'e' ∨ letter = 'E') (signs : isSign sign = true)
    (present : digits ≠ []) (fits : Digits digits) : ExponentForm (letter :: sign :: digits)

inductive DecimalForm : Text → Prop where
  | whole {digits behind : Text} (present : digits ≠ []) (fits : Digits digits) (exponent : ExponentForm behind) :
    DecimalForm (digits ++ behind)
  | fraction {digits fractionDigits behind : Text} (fits : Digits digits) (fits' : Digits fractionDigits)
    (present : digits ≠ [] ∨ fractionDigits ≠ []) (exponent : ExponentForm behind) :
    DecimalForm (digits ++ '.' :: (fractionDigits ++ behind))

inductive NumericForm : Text → Prop where
  | based {body : Text} (form : BasedForm body) : NumericForm body
  | decimal {body : Text} (form : DecimalForm body) : NumericForm body
  | signedBased {sign : Char} {body : Text} (signs : isSign sign = true) (form : BasedForm body) : NumericForm (sign :: body)
  | signedDecimal {sign : Char} {body : Text} (signs : isSign sign = true) (form : DecimalForm body) : NumericForm (sign :: body)

structure NumericText (value : Text) : Prop where
  first : ∃ c, value.head? = some c ∧ (c.isDigit = true ∨ isSign c = true ∨ c = '.')
  form : NumericForm (value.filter (· ≠ '_'))

inductive TimestampForm : Text → Prop where
  | date {year month day behind : Text} (years : year.length = 4) (digits : Digits year)
    (months : 1 ≤ month.length ∧ month.length ≤ 2) (digits' : Digits month) (days : 1 ≤ day.length ∧ day.length ≤ 2)
    (digits'' : Digits day) (ends : ∀ c ∈ behind.head?, c = 'T' ∨ c = 't' ∨ c = ' ') :
    TimestampForm (year ++ '-' :: (month ++ '-' :: (day ++ behind)))

inductive ResolvedLiteral : Text → Prop where
  | null {spelling : String} (known : spelling ∈ ["", "~", "null", "Null", "NULL"]) : ResolvedLiteral (chars spelling)
  | boolean {spelling : String} (known : spelling ∈ ["true", "True", "TRUE", "false", "False", "FALSE"]) :
    ResolvedLiteral (chars spelling)
  | infinity {sign spelling : String} (signs : sign ∈ ["", "+", "-"]) (known : spelling ∈ [".inf", ".Inf", ".INF"]) :
    ResolvedLiteral (chars sign ++ chars spelling)
  | notANumber {spelling : String} (known : spelling ∈ [".nan", ".NaN", ".NAN"]) : ResolvedLiteral (chars spelling)
  | merge : ResolvedLiteral (chars "<<")

end Forms

section Decisions

def Decides (scan : Option Bool) (holds : Prop) : Prop := ∃ answer, scan = some answer ∧ (answer = true ↔ holds)

variable {plain digits behind : Text} {pos start base : Nat} {holds : Prop}

theorem decides_false (fails : ¬holds) : Decides (some false) holds := ⟨false, rfl, by simp [fails]⟩

theorem decides_decide [Decidable holds] : Decides (some (decide holds)) holds := ⟨_, rfl, decide_eq_true_iff⟩

theorem Decides.congr {scan : Option Bool} {other : Prop} (decides : Decides scan holds) (same : holds ↔ other) :
    Decides scan other := by
  obtain ⟨answer, read, iff⟩ := decides
  exact ⟨answer, read, iff.trans same⟩

theorem skipDigits_eq (plain : Text) (pos : Nat) :
    skipDigits plain pos = some (pos + ((plain.drop pos).takeWhile Char.isDigit).length) := skipWhile_all plain Char.isDigit pos

theorem takeWhile_eq_self {text : Text} : text.takeWhile Char.isDigit = text ↔ Digits text := List.takeWhile_eq_self_iff

theorem digits_to_end (inside : pos ≤ plain.length) :
    Decides (do
      let stop ← skipDigits plain pos
      if stop = pos then some false else some (decide (stop = plain.length)))
      (plain.drop pos ≠ [] ∧ Digits (plain.drop pos)) := by
  have size : (plain.drop pos).length = plain.length - pos := List.length_drop
  simp only [skipDigits_eq, Option.bind_eq_bind, Option.bind_some]
  rw [← takeWhile_eq_self]
  by_cases absent : (plain.drop pos).takeWhile Char.isDigit = []
  · rw [absent, List.length_nil, if_pos (Nat.add_zero pos)]
    exact decides_false fun ⟨present, same⟩ => present same.symm
  · have some' : 0 < ((plain.drop pos).takeWhile Char.isDigit).length := List.length_pos_iff.mpr absent
    rw [if_neg (by omega)]
    refine decides_decide.congr ⟨fun ends => ⟨fun empty => absent (by rw [empty]; rfl), ?_⟩, fun ⟨_, same⟩ => ?_⟩
    · exact (List.takeWhile_prefix _).eq_of_length (by omega)
    · rw [same]
      omega

theorem allDigitsInBase_decides (inside : start ≤ plain.length) :
    Decides (allDigitsInBase plain start base) (plain.drop start ≠ [] ∧ ∀ c ∈ plain.drop start, isDigitInBase base c = true) := by
  rw [allDigitsInBase]
  by_cases ends : start = plain.length
  · rw [if_pos ends]
    exact decides_false fun ⟨present, _⟩ => present (List.drop_eq_nil_of_le (by omega))
  · have present : plain.drop start ≠ [] := by
      rw [ne_eq, List.drop_eq_nil_iff]
      omega
    rw [if_neg ends, allFrom_eq _ _ _ _ (by omega)]
    exact ⟨_, rfl, by rw [List.all_eq_true]; simp [present]⟩

theorem drop_next {c : Char} {rest : Text} (here : plain.drop pos = c :: rest) : plain.drop (pos + 1) = rest := by
  rw [← List.drop_drop, here, List.drop_one, List.tail_cons]

theorem lt_of_drop {c : Char} {rest : Text} (here : plain.drop pos = c :: rest) : pos < plain.length := by
  by_contra outside
  rw [List.drop_eq_nil_of_le (by omega)] at here
  cases here

theorem exponent_head (form : ExponentForm behind) : ∀ c ∈ behind.head?, c = 'e' ∨ c = 'E' := by
  cases form with
  | missing => simp
  | plain marked => simpa using marked
  | signed marked => simpa using marked

theorem not_exponent {c : Char} {rest : Text} (other : ¬(c = 'e' ∨ c = 'E')) : ¬ExponentForm (c :: rest) :=
  fun form => other (exponent_head form c rfl)

theorem not_isDigit_of_isSign {c : Char} (signs : isSign c = true) : c.isDigit = false := by
  simp only [isSign, Bool.or_eq_true, decide_eq_true_eq] at signs
  rcases signs with rfl | rfl <;> decide

theorem exponentFrom_decides (inside : pos ≤ plain.length) : Decides (exponentFrom plain pos) (ExponentForm (plain.drop pos)) := by
  simp only [exponentFrom, peek_eq, Option.bind_eq_bind, Option.bind_some]
  cases here : plain.drop pos with
  | nil =>
    have ends : pos = plain.length := by
      rw [List.drop_eq_nil_iff] at here
      omega
    exact ⟨true, by simp [← ends], by simp [ExponentForm.missing]⟩
  | cons c rest =>
    have before := lt_of_drop here
    rw [List.head?_cons, Option.any_some]
    by_cases marked : c = 'e' ∨ c = 'E'
    · rw [if_pos (by simpa using marked), drop_next here]
      cases rest with
      | nil =>
        have scan := @digits_to_end plain (pos + 1) before
        rw [drop_next here] at scan
        refine scan.congr ⟨fun ⟨present, _⟩ => absurd rfl present, fun form => ?_⟩
        cases form with
        | plain _ present => exact absurd rfl present
      | cons sign digits =>
        rw [List.head?_cons, Option.any_some]
        by_cases signs : isSign sign = true
        · have next := lt_of_drop (drop_next here)
          have scan := @digits_to_end plain (pos + 2) next
          rw [drop_next (drop_next here)] at scan
          rw [signs]
          refine scan.congr ⟨fun ⟨present, fits⟩ => .signed marked signs present fits, fun form => ?_⟩
          cases form with
          | plain _ _ fits => exact absurd (fits sign List.mem_cons_self) (by simp [not_isDigit_of_isSign signs])
          | signed _ _ present fits => exact ⟨present, fits⟩
        · have scan := @digits_to_end plain (pos + 1) before
          rw [drop_next here] at scan
          rw [(Bool.not_eq_true _).mp signs]
          refine scan.congr ⟨fun ⟨present, fits⟩ => .plain marked present fits, fun form => ?_⟩
          cases form with
          | plain _ present fits => exact ⟨present, fits⟩
          | signed _ signs' => exact absurd signs' signs
    · rw [if_neg (by simpa using marked)]
      rw [decide_eq_false (by omega)]
      exact decides_false (not_exponent marked)

theorem span_digits (fits : Digits digits) (stops : ∀ c ∈ behind.head?, c.isDigit = false) :
    (digits ++ behind).takeWhile Char.isDigit = digits ∧ (digits ++ behind).dropWhile Char.isDigit = behind := by
  rw [List.takeWhile_append_of_pos fits, List.dropWhile_append_of_pos fits]
  cases behind with
  | nil => simp
  | cons c rest =>
    have other : c.isDigit = false := stops c rfl
    rw [List.takeWhile_cons_of_neg (by simp [other]), List.dropWhile_cons_of_neg (by simp [other]), List.append_nil]
    exact ⟨rfl, rfl⟩

theorem exponent_stops (form : ExponentForm behind) : ∀ c ∈ behind.head?, c.isDigit = false := by
  intro c there
  rcases exponent_head form c there with rfl | rfl <;> decide

theorem digits_takeWhile (text : Text) : Digits (text.takeWhile Char.isDigit) := fun _ there => List.mem_takeWhile_imp there

theorem decimal_point_iff {text rest : Text} (point : text.dropWhile Char.isDigit = '.' :: rest) :
    DecimalForm text ↔ (text.takeWhile Char.isDigit ≠ [] ∨ rest.takeWhile Char.isDigit ≠ []) ∧
      ExponentForm (rest.dropWhile Char.isDigit) := by
  constructor
  · intro form
    cases form with
    | whole present fits exponent =>
      rw [(span_digits fits (exponent_stops exponent)).2] at point
      rw [point] at exponent
      exact absurd exponent (not_exponent (by decide))
    | fraction fits fits' present exponent =>
      obtain ⟨front, back⟩ := @span_digits _ ('.' :: _) fits (by simp)
      rw [back] at point
      obtain rfl := (List.cons.inj point).2
      obtain ⟨front', back'⟩ := span_digits fits' (exponent_stops exponent)
      rw [front, front', back']
      exact ⟨present, exponent⟩
  · rintro ⟨present, exponent⟩
    have whole := List.takeWhile_append_dropWhile (p := Char.isDigit) (l := text)
    have whole' := List.takeWhile_append_dropWhile (p := Char.isDigit) (l := rest)
    rw [point, ← whole'] at whole
    rw [← whole]
    exact .fraction (digits_takeWhile text) (digits_takeWhile rest) present exponent

theorem decimal_no_point_iff {text : Text} (absent : ∀ c ∈ (text.dropWhile Char.isDigit).head?, c ≠ '.') :
    DecimalForm text ↔ text.takeWhile Char.isDigit ≠ [] ∧ ExponentForm (text.dropWhile Char.isDigit) := by
  constructor
  · intro form
    cases form with
    | whole present fits exponent =>
      obtain ⟨front, back⟩ := span_digits fits (exponent_stops exponent)
      rw [front, back]
      exact ⟨present, exponent⟩
    | fraction fits =>
      rw [(@span_digits _ ('.' :: _) fits (by simp)).2] at absent
      exact absurd rfl (absent '.' rfl)
  · rintro ⟨present, exponent⟩
    rw [← List.takeWhile_append_dropWhile (p := Char.isDigit) (l := text)]
    exact .whole present (digits_takeWhile text) exponent

theorem takeWhile_length_le (text : Text) : (text.takeWhile Char.isDigit).length ≤ text.length :=
  (List.takeWhile_sublist _).length_le

theorem decimalFrom_decides (inside : start ≤ plain.length) : Decides (decimalFrom plain start) (DecimalForm (plain.drop start)) := by
  have size : (plain.drop start).length = plain.length - start := List.length_drop
  have most := takeWhile_length_le (plain.drop start)
  have some' := List.length_pos_iff (l := (plain.drop start).takeWhile Char.isDigit)
  simp only [decimalFrom, skipDigits_eq, peek_eq, Option.bind_eq_bind, Option.bind_some, drop_takeWhile]
  cases here : (plain.drop start).dropWhile Char.isDigit with
  | nil =>
    rw [decimal_no_point_iff (by simp [here]), here]
    simp only [List.head?_nil, Option.any_none, Bool.false_eq_true, if_false]
    split
    next longer =>
      have scan := @exponentFrom_decides plain (start + ((plain.drop start).takeWhile Char.isDigit).length) (by omega)
      rw [drop_takeWhile, here] at scan
      exact scan.congr ⟨fun form => ⟨some'.mp (by omega), form⟩, fun form => form.2⟩
    next shorter => exact decides_false fun ⟨present, _⟩ => absurd (some'.mpr present) (by omega)
  | cons c rest =>
    have behind := drop_takeWhile Char.isDigit plain start
    rw [here] at behind
    have next := lt_of_drop behind
    rw [List.head?_cons, Option.any_some]
    by_cases point : c = '.'
    · subst point
      rw [if_pos (by decide), drop_next behind]
      have size' : rest.length = plain.length - (start + ((plain.drop start).takeWhile Char.isDigit).length + 1) := by
        rw [← drop_next behind, List.length_drop]
      have most' := takeWhile_length_le rest
      have some'' := List.length_pos_iff (l := rest.takeWhile Char.isDigit)
      rw [decimal_point_iff here, ← some', ← some'']
      split
      next longer =>
        have scan := @exponentFrom_decides plain
          (start + ((plain.drop start).takeWhile Char.isDigit).length + 1 + (rest.takeWhile Char.isDigit).length) (by omega)
        have last := drop_takeWhile Char.isDigit plain (start + ((plain.drop start).takeWhile Char.isDigit).length + 1)
        rw [drop_next behind] at last
        rw [last] at scan
        exact scan.congr ⟨fun form => ⟨by omega, form⟩, fun form => form.2⟩
      next shorter => exact decides_false fun ⟨present, _⟩ => by omega
    · rw [if_neg (by simpa using point), decimal_no_point_iff (by simpa [here] using point), here, ← some']
      split
      next longer =>
        have scan := @exponentFrom_decides plain (start + ((plain.drop start).takeWhile Char.isDigit).length) (by omega)
        rw [behind] at scan
        exact scan.congr ⟨fun form => ⟨by omega, form⟩, fun form => form.2⟩
      next shorter => exact decides_false fun ⟨present, _⟩ => by omega

end Decisions

section Numbers

variable {plain body value : Text} {pos base : Nat}

theorem baseOf_spec {letter : Char} (known : baseOf letter = some base) :
    (base = 16 ∧ (letter = 'x' ∨ letter = 'X')) ∨ (base = 8 ∧ (letter = 'o' ∨ letter = 'O')) ∨
      (base = 2 ∧ (letter = 'b' ∨ letter = 'B')) := by
  rw [baseOf] at known
  split at known
  next marked => exact .inl ⟨(Option.some_inj.mp known).symm, marked⟩
  next =>
    split at known
    next marked => exact .inr (.inl ⟨(Option.some_inj.mp known).symm, marked⟩)
    next =>
      split at known
      next marked => exact .inr (.inr ⟨(Option.some_inj.mp known).symm, marked⟩)
      next => cases known

def bodyBase : Text → Option Nat
  | '0' :: letter :: _ => baseOf letter
  | _ => none

theorem bodyBase_short (short : body.length ≤ 1) : bodyBase body = none := by
  rw [bodyBase.eq_def]
  split
  next => simp only [List.length_cons] at short; omega
  next => rfl

theorem baseAt_eq (plain : Text) (pos : Nat) : baseAt plain pos = some (bodyBase (plain.drop pos)) := by
  rw [baseAt]
  split
  next inside =>
    have first : pos < plain.length := by omega
    have second : pos + 1 < plain.length := by omega
    rw [List.getElem?_eq_getElem first, List.getElem?_eq_getElem second, List.drop_eq_getElem_cons first,
      List.drop_eq_getElem_cons second]
    simp only [Option.bind_eq_bind, Option.bind_some]
    by_cases zero : plain[pos] = '0'
    · rw [if_pos zero, zero, bodyBase]
    · rw [if_neg zero, bodyBase]
      exact fun letter rest same => absurd (List.cons.inj same).1 zero
  next outside =>
    have short : (plain.drop pos).length ≤ 1 := by
      rw [List.length_drop]
      omega
    rw [bodyBase_short short]

theorem based_iff (known : bodyBase body = some base) :
    BasedForm body ↔ body.drop 2 ≠ [] ∧ ∀ c ∈ body.drop 2, isDigitInBase base c = true := by
  rw [bodyBase.eq_def] at known
  split at known
  next letter digits =>
    simp only [List.drop_succ_cons, List.drop_zero]
    constructor
    · intro form
      cases form with
      | hexadecimal marked present fits | octal marked present fits | binary marked present fits =>
        rcases marked with rfl | rfl <;> cases known <;> exact ⟨present, fits⟩
    · rintro ⟨present, fits⟩
      rcases baseOf_spec known with ⟨rfl, marked⟩ | ⟨rfl, marked⟩ | ⟨rfl, marked⟩
      · exact .hexadecimal marked present fits
      · exact .octal marked present fits
      · exact .binary marked present fits
  next => cases known

theorem bodyBase_of_based (form : BasedForm body) : ∃ base, bodyBase body = some base := by
  cases form with
  | hexadecimal marked | octal marked | binary marked => rcases marked with rfl | rfl <;> exact ⟨_, rfl⟩

theorem not_decimal_of_based (known : bodyBase body = some base) : ¬DecimalForm body := by
  rw [bodyBase.eq_def] at known
  split at known
  next letter digits =>
    have letters : letter.isDigit = false ∧ letter ≠ '.' ∧ ¬(letter = 'e' ∨ letter = 'E') := by
      rcases baseOf_spec known with ⟨-, rfl | rfl⟩ | ⟨-, rfl | rfl⟩ | ⟨-, rfl | rfl⟩ <;> decide
    have back : ('0' :: letter :: digits).dropWhile Char.isDigit = letter :: digits := by
      rw [List.dropWhile_cons_of_pos (by decide), List.dropWhile_cons_of_neg (by simp [letters.1])]
    rw [decimal_no_point_iff (by simpa [back] using letters.2.1), back]
    exact fun form => not_exponent letters.2.2 form.2
  next => cases known

theorem body_decides (inside : pos ≤ plain.length) :
    Decides (do
      let base ← baseAt plain pos
      match base with
      | some base => allDigitsInBase plain (pos + 2) base
      | none => decimalFrom plain pos) (BasedForm (plain.drop pos) ∨ DecimalForm (plain.drop pos)) := by
  simp only [baseAt_eq, Option.bind_eq_bind, Option.bind_some]
  cases known : bodyBase (plain.drop pos) with
  | none =>
    refine (decimalFrom_decides inside).congr ⟨.inr, fun form => form.resolve_left fun based => ?_⟩
    obtain ⟨base, some'⟩ := bodyBase_of_based based
    rw [known] at some'
    cases some'
  | some base =>
    have long : pos + 2 ≤ plain.length := by
      by_contra short
      rw [bodyBase_short (by rw [List.length_drop]; omega)] at known
      cases known
    have scan := @allDigitsInBase_decides plain (pos + 2) base long
    rw [← List.drop_drop, ← based_iff known] at scan
    exact scan.congr ⟨.inl, fun form => form.resolve_right (not_decimal_of_based known)⟩

theorem decimal_head {c : Char} {rest : Text} (form : DecimalForm (c :: rest)) : c.isDigit = true ∨ c = '.' := by
  by_contra other
  rw [not_or, Bool.not_eq_true] at other
  have front : (c :: rest).takeWhile Char.isDigit = [] := List.takeWhile_cons_of_neg (by simp [other.1])
  have back : (c :: rest).dropWhile Char.isDigit = c :: rest := List.dropWhile_cons_of_neg (by simp [other.1])
  rw [decimal_no_point_iff (by simpa [back] using other.2), front] at form
  exact form.1 rfl

theorem numericForm_iff {c : Char} {rest : Text} :
    NumericForm (c :: rest) ↔ if isSign c = true then BasedForm rest ∨ DecimalForm rest
      else BasedForm (c :: rest) ∨ DecimalForm (c :: rest) := by
  constructor
  · intro form
    cases form with
    | based based =>
      rw [if_neg (by cases based <;> decide)]
      exact .inl based
    | decimal decimal =>
      rw [if_neg fun signs => ?_]
      · exact .inr decimal
      · rcases decimal_head decimal with digit | rfl
        · rw [not_isDigit_of_isSign signs] at digit
          cases digit
        · exact absurd signs (by decide)
    | signedBased signs form =>
      rw [if_pos signs]
      exact .inl form
    | signedDecimal signs form =>
      rw [if_pos signs]
      exact .inr form
  · intro form
    split at form
    next signs => exact form.elim (.signedBased signs) (.signedDecimal signs)
    next => exact form.elim .based .decimal

theorem not_body_nil : ¬(BasedForm [] ∨ DecimalForm []) := by
  rintro (form | form)
  · cases form
  · rw [decimal_no_point_iff (by simp)] at form
    exact form.1 rfl

theorem isYamlNumericScalar_decides (value : Text) : Decides (isYamlNumericScalar value) (NumericText value) := by
  rw [isYamlNumericScalar]
  cases value with
  | nil => exact decides_false fun ⟨⟨c, here, _⟩, _⟩ => by cases here
  | cons first rest =>
    rw [if_neg (List.cons_ne_nil _ _)]
    simp only [List.getElem?_cons_zero, Option.bind_eq_bind, Option.bind_some]
    by_cases starts : first.isDigit = true ∨ isSign first = true ∨ first = '.'
    · have kept : first ≠ '_' := by
        rintro rfl
        revert starts
        decide
      have open' : (!first.isDigit && first ≠ '+' && first ≠ '-' && first ≠ '.') = false := by
        rw [Bool.eq_false_iff]
        intro closed
        simp only [isSign, Bool.or_eq_true, decide_eq_true_eq] at starts
        simp only [Bool.and_eq_true, Bool.not_eq_true', decide_eq_true_eq] at closed
        obtain ⟨⟨⟨digit, plus⟩, minus⟩, point⟩ := closed
        rcases starts with starts | (starts | starts) | starts
        · rw [digit] at starts
          cases starts
        · exact plus starts
        · exact minus starts
        · exact point starts
      rw [open', List.filter_cons_of_pos (by simpa using kept)]
      simp only [Bool.false_eq_true, if_false, List.getElem?_cons_zero, Option.bind_some, List.length_cons]
      have whole : NumericText (first :: rest) ↔ NumericForm (first :: rest.filter (· ≠ '_')) := by
        refine ⟨fun numeric => ?_, fun form => ⟨⟨first, rfl, starts⟩, ?_⟩⟩
        · have form := numeric.form
          rwa [List.filter_cons_of_pos (by simpa using kept)] at form
        · rwa [List.filter_cons_of_pos (by simpa using kept)]
      refine Decides.congr ?_ whole.symm
      rw [numericForm_iff]
      by_cases signs : isSign first = true
      · simp only [signs, if_true, true_and]
        split
        next alone =>
          obtain absent : rest.filter (· ≠ '_') = [] := List.length_eq_zero_iff.mp (by omega)
          rw [absent]
          exact decides_false not_body_nil
        next =>
          exact @body_decides (first :: rest.filter (· ≠ '_')) 1 (by simp)
      · simp only [signs]
        exact @body_decides (first :: rest.filter (· ≠ '_')) 0 (Nat.zero_le _)
    · have closed : (!first.isDigit && first ≠ '+' && first ≠ '-' && first ≠ '.') = true := by
        simp only [isSign, Bool.or_eq_true, decide_eq_true_eq, not_or] at starts
        simp [starts]
      rw [if_pos closed]
      refine decides_false fun numeric => starts ?_
      obtain ⟨c, here, kind⟩ := numeric.first
      rw [List.head?_cons, Option.some_inj] at here
      rwa [here]

end Numbers

section Timestamps

variable {value digits behind : Text} {pos : Nat}

def OneOrTwo (digits : Text) : Prop := (1 ≤ digits.length ∧ digits.length ≤ 2) ∧ Digits digits

theorem takeWhile_two (some' : OneOrTwo digits) (stops : ∀ c ∈ behind.head?, c.isDigit = false) :
    ((digits ++ behind).take 2).takeWhile Char.isDigit = digits := by
  obtain ⟨⟨least, most⟩, fits⟩ := some'
  match digits, least, most with
  | [a], _, _ =>
    have first : a.isDigit = true := fits a (.head _)
    cases behind with
    | nil => simp [first]
    | cons c rest => simp [first, stops c rfl]
  | [a, b], _, _ =>
    have first : a.isDigit = true := fits a (.head _)
    have second : b.isDigit = true := fits b (.tail _ (.head _))
    simp [first, second]

theorem takeWhile_two_prefix (text : Text) :
    (text.take 2).takeWhile Char.isDigit ++ text.drop ((text.take 2).takeWhile Char.isDigit).length = text := by
  have front : (text.take 2).takeWhile Char.isDigit <+: text := (List.takeWhile_prefix _).trans (List.take_prefix _ _)
  nth_rewrite 1 [← List.prefix_iff_eq_take.mp front |>.symm]
  exact List.take_append_drop _ _

theorem oneOrTwo_of_takeWhile {text : Text} (present : (text.take 2).takeWhile Char.isDigit ≠ []) :
    OneOrTwo ((text.take 2).takeWhile Char.isDigit) :=
  ⟨⟨List.length_pos_iff.mpr present, (List.takeWhile_prefix _).length_le.trans (List.length_take_le 2 text)⟩,
    fun _ => List.mem_takeWhile_imp⟩

def endsDate (c : Char) : Bool := c = 'T' || c = 't' || c = ' '

def DayForm (text : Text) : Prop :=
  ∃ day behind, text = day ++ behind ∧ OneOrTwo day ∧ ∀ c ∈ behind.head?, endsDate c = true

def MonthForm (text : Text) : Prop := ∃ month behind, text = month ++ '-' :: behind ∧ OneOrTwo month ∧ DayForm behind

theorem timestamp_iff {y₀ y₁ y₂ y₃ dash : Char} {rest : Text} :
    TimestampForm (y₀ :: y₁ :: y₂ :: y₃ :: dash :: rest) ↔ Digits [y₀, y₁, y₂, y₃] ∧ dash = '-' ∧ MonthForm rest := by
  constructor
  · generalize whole : y₀ :: y₁ :: y₂ :: y₃ :: dash :: rest = text
    rintro ⟨years, digits, months, digits', days, digits'', ends⟩
    rename_i year month day behind
    match year, years with
    | [a, b, c, d], _ =>
      simp only [List.cons_append, List.nil_append, List.cons.injEq] at whole
      obtain ⟨rfl, rfl, rfl, rfl, rfl, rfl⟩ := whole
      refine ⟨digits, rfl, month, _, rfl, ⟨months, digits'⟩, day, behind, rfl, ⟨days, digits''⟩, fun c first => ?_⟩
      simpa [endsDate, or_assoc] using ends c first
  · rintro ⟨digits, rfl, month, _, rfl, ⟨months, digits'⟩, day, behind, rfl, ⟨days, digits''⟩, ends⟩
    have ends' : ∀ c ∈ behind.head?, c = 'T' ∨ c = 't' ∨ c = ' ' := fun c first => by
      simpa [endsDate, or_assoc] using ends c first
    exact @TimestampForm.date [y₀, y₁, y₂, y₃] _ _ _ rfl digits months digits' days digits'' ends'

theorem day_decides (inside : pos ≤ value.length) :
    Decides (do
      let stop ← skipWhile value Char.isDigit 2 pos
      if stop = pos then some false
      else if stop = value.length then some true
      else do
        let c ← value[stop]?
        some (c = 'T' || c = 't' || c = ' ')) (DayForm (value.drop pos)) := by
  simp only [skipWhile_eq, Option.bind_eq_bind, Option.bind_some]
  generalize known : ((value.drop pos).take 2).takeWhile Char.isDigit = day
  have split' : day ++ value.drop (pos + day.length) = value.drop pos := by
    rw [← List.drop_drop, ← known]
    exact takeWhile_two_prefix _
  have size : pos + day.length ≤ value.length := by
    have := congrArg List.length split'
    simp only [List.length_append, List.length_drop] at this
    omega
  -- The day of any reading is what the scanner passed.
  have only : DayForm (value.drop pos) ↔ day ≠ [] ∧ ∀ c ∈ (value.drop (pos + day.length)).head?, endsDate c = true := by
    constructor
    · rintro ⟨day', behind, same, some', ends⟩
      have stops : ∀ c ∈ behind.head?, c.isDigit = false := by
        intro c first
        have ends := ends c first
        simp only [endsDate, Bool.or_eq_true, decide_eq_true_eq] at ends
        rcases ends with (rfl | rfl) | rfl <;> decide
      obtain rfl : day' = day := by rw [← known, same, takeWhile_two some' stops]
      rw [same] at split'
      rw [List.append_cancel_left split']
      exact ⟨List.length_pos_iff.mp some'.1.1, ends⟩
    · rintro ⟨present, ends⟩
      exact ⟨day, _, split'.symm, known ▸ oneOrTwo_of_takeWhile (known ▸ present), ends⟩
  refine Decides.congr ?_ only.symm
  by_cases absent : day = []
  · rw [if_pos (by rw [absent]; rfl)]
    exact decides_false fun ⟨present, _⟩ => present absent
  · have some' : 0 < day.length := List.length_pos_iff.mpr absent
    rw [if_neg (by omega)]
    split
    next ends =>
      rw [List.drop_eq_nil_of_le (by omega)]
      exact ⟨true, rfl, by simp [absent]⟩
    next more =>
      have here : pos + day.length < value.length := by omega
      rw [List.getElem?_eq_getElem here, List.drop_eq_getElem_cons here, List.head?_cons]
      exact ⟨_, rfl, by simp [absent, endsDate]⟩

theorem month_decides (inside : pos ≤ value.length) :
    Decides (do
      let stop ← skipWhile value Char.isDigit 2 pos
      if stop = pos ∨ stop = value.length then some false
      else do
        let dash ← value[stop]?
        if dash ≠ '-' then some false
        else do
          let last ← skipWhile value Char.isDigit 2 (stop + 1)
          if last = stop + 1 then some false
          else if last = value.length then some true
          else do
            let c ← value[last]?
            some (c = 'T' || c = 't' || c = ' ')) (MonthForm (value.drop pos)) := by
  simp only [skipWhile_eq value Char.isDigit 2 pos, Option.bind_eq_bind, Option.bind_some]
  generalize known : ((value.drop pos).take 2).takeWhile Char.isDigit = month
  have split' : month ++ value.drop (pos + month.length) = value.drop pos := by
    rw [← List.drop_drop, ← known]
    exact takeWhile_two_prefix _
  have only : MonthForm (value.drop pos) ↔
      month ≠ [] ∧ ∃ behind, value.drop (pos + month.length) = '-' :: behind ∧ DayForm behind := by
    constructor
    · rintro ⟨month', behind, same, some', day⟩
      obtain rfl : month' = month := by
        rw [← known, same, takeWhile_two some' (by rintro c ⟨⟩; decide)]
      rw [same] at split'
      exact ⟨List.length_pos_iff.mp some'.1.1, behind, List.append_cancel_left split', day⟩
    · rintro ⟨present, behind, rest, day⟩
      rw [rest] at split'
      exact ⟨month, behind, split'.symm, known ▸ oneOrTwo_of_takeWhile (known ▸ present), day⟩
  refine Decides.congr ?_ only.symm
  by_cases here : pos + month.length < value.length
  · rw [List.drop_eq_getElem_cons here, List.getElem?_eq_getElem here]
    by_cases absent : month = []
    · rw [if_pos (.inl (by rw [absent]; rfl))]
      exact decides_false fun ⟨present, _⟩ => present absent
    · have some' : 0 < month.length := List.length_pos_iff.mpr absent
      rw [if_neg (by omega)]
      simp only [Option.bind_some]
      by_cases dash : value[pos + month.length] = '-'
      · rw [if_neg (not_not.mpr dash), dash]
        refine (day_decides (by omega)).congr ⟨fun day => ⟨absent, _, rfl, day⟩, ?_⟩
        rintro ⟨-, behind, same, day⟩
        rwa [(List.cons.inj same).2]
      · rw [if_pos dash]
        exact decides_false fun ⟨_, behind, same, _⟩ => dash (List.cons.inj same).1
  · have ends : pos + month.length = value.length := by
      have := congrArg List.length split'
      simp only [List.length_append, List.length_drop] at this
      omega
    rw [if_pos (.inr ends), List.drop_eq_nil_of_le (by omega)]
    exact decides_false fun ⟨_, behind, same, _⟩ => by cases same

theorem length_of_timestamp (form : TimestampForm value) : 8 ≤ value.length := by
  cases form with
  | date years digits months digits' days =>
    simp only [List.length_append, List.length_cons]
    omega

theorem isYamlTimestampScalar_decides (value : Text) : Decides (isYamlTimestampScalar value) (TimestampForm value) := by
  rw [isYamlTimestampScalar]
  split
  next short =>
    exact decides_false fun form => by
      have long := length_of_timestamp form
      omega
  next long =>
    match value with
    | y₀ :: y₁ :: y₂ :: y₃ :: dash :: rest =>
      simp only [List.getElem?_cons_zero, List.getElem?_cons_succ, Option.bind_eq_bind, Option.bind_some]
      rw [timestamp_iff]
      by_cases year : Digits [y₀, y₁, y₂, y₃] ∧ dash = '-'
      · obtain ⟨digits, rfl⟩ := year
        have front : (!(y₀.isDigit && y₁.isDigit && y₂.isDigit && y₃.isDigit && decide ('-' = '-'))) = false := by
          simp [digits y₀, digits y₁, digits y₂, digits y₃]
        rw [front]
        refine (@month_decides (y₀ :: y₁ :: y₂ :: y₃ :: '-' :: rest) 5 (by simp)).congr ?_
        exact ⟨fun month => ⟨digits, rfl, month⟩, fun ⟨_, _, month⟩ => month⟩
      · rw [if_pos]
        · exact decides_false fun ⟨digits, same, _⟩ => year ⟨digits, same⟩
        · rw [Bool.not_eq_true', Bool.eq_false_iff]
          intro all
          simp only [Bool.and_eq_true, decide_eq_true_eq] at all
          exact year ⟨by simp [Digits, all], all.2⟩
    | [] | [_] | [_, _] | [_, _, _] | [_, _, _, _] => exact absurd (by simp) long

end Timestamps

section Results

variable {value : Text}

theorem mem_of_resolvedLiteral (literal : ResolvedLiteral value) : value ∈ resolvedLiterals := by
  cases literal with
  | null known => fin_cases known <;> decide
  | boolean known => fin_cases known <;> decide
  | infinity signs known => fin_cases signs <;> fin_cases known <;> decide
  | notANumber known => fin_cases known <;> decide
  | merge => decide

theorem resolvedLiteral_of_mem (known : value ∈ resolvedLiterals) : ResolvedLiteral value := by
  rw [resolvedLiterals, List.mem_map] at known
  obtain ⟨spelling, known, rfl⟩ := known
  simp only [List.mem_cons, List.not_mem_nil, or_false] at known
  rcases known with rfl | rfl | rfl | rfl | rfl | known
  iterate 5 exact .null (by decide)
  rcases known with rfl | rfl | rfl | rfl | rfl | rfl | known
  iterate 6 exact .boolean (by decide)
  rcases known with rfl | rfl | rfl | known
  iterate 3 exact .notANumber (by decide)
  rcases known with rfl | rfl | rfl | rfl | rfl | rfl | rfl | rfl | rfl | rfl
  · exact @ResolvedLiteral.infinity "" ".inf" (by decide) (by decide)
  · exact @ResolvedLiteral.infinity "" ".Inf" (by decide) (by decide)
  · exact @ResolvedLiteral.infinity "" ".INF" (by decide) (by decide)
  · exact @ResolvedLiteral.infinity "+" ".inf" (by decide) (by decide)
  · exact @ResolvedLiteral.infinity "+" ".Inf" (by decide) (by decide)
  · exact @ResolvedLiteral.infinity "+" ".INF" (by decide) (by decide)
  · exact @ResolvedLiteral.infinity "-" ".inf" (by decide) (by decide)
  · exact @ResolvedLiteral.infinity "-" ".Inf" (by decide) (by decide)
  · exact @ResolvedLiteral.infinity "-" ".INF" (by decide) (by decide)
  · exact .merge

theorem typed_strings_quoted (value : Text) :
    (requiresExplicitStringStyle value = some true ↔ ResolvedLiteral value ∨ NumericText value ∨ TimestampForm value) ∧
      ∃ numeric, isYamlNumericScalar value = some numeric ∧ (numeric = true ↔ NumericText value) := by
  obtain ⟨numeric, scanned, iff⟩ := isYamlNumericScalar_decides value
  obtain ⟨dated, scanned', iff'⟩ := isYamlTimestampScalar_decides value
  refine ⟨?_, numeric, scanned, iff⟩
  rw [requiresExplicitStringStyle, ← iff, ← iff']
  by_cases known : value ∈ resolvedLiterals
  · rw [if_pos known]
    exact ⟨fun _ => .inl (resolvedLiteral_of_mem known), fun _ => rfl⟩
  · have unresolved : ¬ResolvedLiteral value := fun literal => known (mem_of_resolvedLiteral literal)
    rw [if_neg known, scanned, scanned']
    cases numeric <;> cases dated <;> simp [unresolved]

example : ["0123", "1e5", "-0x_1F", ".5", "1_000.", "2024-1-02", "2024-12-31t"].all
    (fun value => requiresExplicitStringStyle (chars value) == some true) = true := by decide

example : ["0x", "1e", "+", "e5", "1.2.3", "2024-1-x", "_1"].all
    (fun value => requiresExplicitStringStyle (chars value) == some false) = true := by decide

end Results

end SubConverter.Generator.YamlScalars
