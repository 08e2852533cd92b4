import SubConverter.Parser.MieruUri

set_option autoImplicit false

namespace SubConverter.Parser

open Wire (Bytes)
open Bridge (ascii)

-- Decided along the bytes, not over all of them.
local instance (holds : UInt8 → Prop) [DecidablePred holds] (bytes : Bytes) : Decidable (∀ byte ∈ bytes, holds byte) :=
  List.decidableBAll holds bytes

section Percent

theorem hexValue_hexDigit : ∀ n : Fin 16, hexValue (hexDigit n) = some n.val := by decide

theorem marks_ascii : ascii "-._~" = [0x2d, 0x2e, 0x5f, 0x7e] := by decide

theorem not_control {ch : UInt8} (high : 0x20 ≤ ch.toNat) (low : ch.toNat < 0x7f) : isControl ch = false := by
  simp only [isControl, Bool.or_eq_false_iff, decide_eq_false_iff_not]
  omega

theorem not_control_of_isAlnum {ch : UInt8} (alnum : isAlnum ch) : isControl ch = false := by
  simp only [isAlnum, isDigit, Bool.or_eq_true, Bool.and_eq_true, decide_eq_true_eq] at alnum
  exact not_control (by omega) (by omega)

theorem plain_of_isUnreserved {ch : UInt8} (unreserved : isUnreserved ch) :
    ch ≠ code '%' ∧ ch ≠ code '+' ∧ isControl ch = false := by
  refine ⟨fun percent => ?_, fun plus => ?_, ?_⟩
  · subst percent
    revert unreserved
    decide
  · subst plus
    revert unreserved
    decide
  · rw [isUnreserved, Bool.or_eq_true, decide_eq_true_eq, marks_ascii] at unreserved
    rcases unreserved with alnum | mark
    · exact not_control_of_isAlnum alnum
    · simp only [List.mem_cons, List.not_mem_nil, or_false] at mark
      rcases mark with rfl | rfl | rfl | rfl <;> rfl

theorem isUnreserved_hexDigit : ∀ n : Fin 16, isUnreserved (hexDigit n) := by decide

theorem encoded_unreserved (ch : UInt8) : ∀ c ∈ encodeByte ch, isUnreserved c ∨ c = code '%' := by
  intro c there
  rw [encodeByte] at there
  split at there
  next unreserved =>
    rw [List.mem_singleton] at there
    exact .inl (there ▸ unreserved)
  next =>
    simp only [List.mem_cons, List.not_mem_nil, or_false] at there
    rcases there with rfl | rfl | rfl
    · exact .inr rfl
    · exact .inl (isUnreserved_hexDigit ⟨ch.toNat / 16, by have := ch.toNat_lt; omega⟩)
    · exact .inl (isUnreserved_hexDigit ⟨ch.toNat % 16, by omega⟩)

theorem percentDecode_cons {plusAsSpace : Bool} {ch : UInt8} (percent : ch ≠ code '%') (rest : Bytes) :
    percentDecode plusAsSpace (ch :: rest) =
      let read := if plusAsSpace ∧ ch = code '+' then code ' ' else ch
      if isControl read then none else (percentDecode plusAsSpace rest).map (read :: ·) := by
  rw [percentDecode.eq_def]
  simp only [percent, if_false]

theorem percentDecode_encodeByte (plusAsSpace : Bool) (ch : UInt8) (rest : Bytes) :
    percentDecode plusAsSpace (encodeByte ch ++ rest) =
      if isControl ch then none else (percentDecode plusAsSpace rest).map (ch :: ·) := by
  rw [encodeByte]
  split
  next unreserved =>
    obtain ⟨percent, plus, control⟩ := plain_of_isUnreserved unreserved
    rw [List.singleton_append, percentDecode_cons percent]
    simp [plus]
  next =>
    have high := hexValue_hexDigit ⟨ch.toNat / 16, by have := ch.toNat_lt; omega⟩
    have low := hexValue_hexDigit ⟨ch.toNat % 16, by omega⟩
    have whole : UInt8.ofNat (ch.toNat / 16 * 16 + ch.toNat % 16) = ch := by
      rw [Nat.div_add_mod', UInt8.ofNat_toNat]
    simp only at high low
    simp only [List.cons_append, List.nil_append, percentDecode, if_true, high, low, Option.bind_eq_bind, Option.bind_some, whole]

theorem percentDecode_percentEncode (plusAsSpace : Bool) (text : Bytes) :
    percentDecode plusAsSpace (percentEncode text) = if text.any isControl then none else some text := by
  induction text with
  | nil => rfl
  | cons ch rest ih =>
    rw [percentEncode, List.flatMap_cons, percentDecode_encodeByte, ← percentEncode, ih, List.any_cons]
    cases isControl ch <;> cases rest.any isControl <;> rfl

theorem not_mem_percentEncode {mark : UInt8} (reserved : isUnreserved mark = false) (other : mark ≠ code '%') (text : Bytes) :
    mark ∉ percentEncode text := by
  intro there
  obtain ⟨ch, -, inside⟩ := List.mem_flatMap.mp there
  rcases encoded_unreserved ch mark inside with unreserved | percent
  · rw [reserved] at unreserved
    cases unreserved
  · exact other percent

@[simp] theorem percentEncode_eq_nil_iff {text : Bytes} : percentEncode text = [] ↔ text = [] := by
  cases text with
  | nil => simp [percentEncode]
  | cons ch rest =>
    have present : encodeByte ch ≠ [] := by
      rw [encodeByte]
      split <;> simp
    simp [percentEncode, present]

theorem percentDecode_plain {plusAsSpace : Bool} {text : Bytes}
    (plain : ∀ ch ∈ text, ch ≠ code '%' ∧ ch ≠ code '+' ∧ isControl ch = false) : percentDecode plusAsSpace text = some text := by
  induction text with
  | nil => rfl
  | cons ch rest ih =>
    rw [List.forall_mem_cons] at plain
    obtain ⟨⟨percent, plus, control⟩, later⟩ := plain
    rw [percentDecode_cons percent]
    simp [plus, control, ih later]

theorem decoded_plain {plusAsSpace : Bool} {text decoded : Bytes} (ok : percentDecode plusAsSpace text = some decoded) :
    decoded.any isControl = false := by
  have grown : ∀ {ch : UInt8} {rest : Bytes} {decoded : Bytes},
      (∀ {decoded : Bytes}, percentDecode plusAsSpace rest = some decoded → decoded.any isControl = false) →
      (if isControl ch then none else (percentDecode plusAsSpace rest).map (ch :: ·)) = some decoded →
      decoded.any isControl = false := by
    intro ch rest decoded ih ok
    rw [Option.ite_none_left_eq_some, Option.map_eq_some_iff] at ok
    obtain ⟨control, tail, read, rfl⟩ := ok
    rw [List.any_cons, ih read, Bool.or_false]
    exact Bool.not_eq_true _ ▸ control
  induction text using percentDecode.induct plusAsSpace generalizing decoded with
  | case1 =>
    rw [percentDecode, Option.some.injEq] at ok
    simp [← ok]
  | case2 first second more ih =>
    rw [percentDecode, if_pos rfl] at ok
    simp only [Option.bind_eq_bind, Option.bind_eq_some_iff] at ok
    obtain ⟨high, -, low, -, ok⟩ := ok
    exact grown ih ok
  | case3 rest short =>
    rw [percentDecode] at ok
    · simp at ok
    · exact short
  | case4 ch rest percent read =>
    rename_i control
    rw [percentDecode_cons percent] at ok
    rw [if_pos control] at ok
    cases ok
  | case5 ch rest percent read control =>
    rename_i ih
    rw [percentDecode_cons percent] at ok
    exact grown ih ok

end Percent

section Numbers

def digitsValue (start : Nat) (value : Bytes) : Nat := value.foldl (fun result ch => result * 10 + (ch.toNat - 0x30)) start

theorem le_digitsValue (start : Nat) (value : Bytes) : start ≤ digitsValue start value := by
  induction value generalizing start with
  | nil => exact le_rfl
  | cons ch rest ih =>
    have step := ih (start * 10 + (ch.toNat - 0x30))
    rw [digitsValue, List.foldl_cons, ← digitsValue]
    omega

theorem parse_loop {maximum : Nat} (roomy : 9 ≤ maximum) {value : Bytes} (digits : value.all isDigit) (start : Nat) :
    value.foldlM
      (fun result ch =>
        let digit := ch.toNat - 0x30
        if (maximum - digit) / 10 < result then none else some (result * 10 + digit)) start =
      if value ≠ [] ∧ maximum < digitsValue start value then none else some (digitsValue start value) := by
  induction value generalizing start with
  | nil => simp [digitsValue]
  | cons ch rest ih =>
    rw [List.all_cons, Bool.and_eq_true] at digits
    obtain ⟨digit, digits⟩ := digits
    have small : ch.toNat - 0x30 ≤ 9 := by
      simp only [isDigit, Bool.and_eq_true, decide_eq_true_eq] at digit
      omega
    have grows := le_digitsValue (start * 10 + (ch.toNat - 0x30)) rest
    have same : digitsValue start (ch :: rest) = digitsValue (start * 10 + (ch.toNat - 0x30)) rest := rfl
    rw [List.foldlM_cons, same]
    by_cases large : (maximum - (ch.toNat - 0x30)) / 10 < start
    · have beyond : maximum < digitsValue (start * 10 + (ch.toNat - 0x30)) rest := by omega
      simp [large, beyond]
    · simp only [if_neg large, Option.bind_eq_bind, Option.bind_some, ih digits]
      cases rest with
      | nil =>
        have within : ¬maximum < start * 10 + (ch.toNat - 0x30) := by omega
        simp [digitsValue, within]
      | cons next more => simp

theorem parseUnsigned_eq_some_iff {minimum maximum n : Nat} (roomy : 9 ≤ maximum) {value : Bytes} :
    parseUnsigned value minimum maximum = some n ↔
      value ≠ [] ∧ value.all isDigit ∧ digitsValue 0 value = n ∧ minimum ≤ n ∧ n ≤ maximum := by
  rw [parseUnsigned]
  by_cases digits : value = [] ∨ !value.all isDigit
  · rw [if_pos digits]
    rcases digits with rfl | other
    · simp
    · simp only [Bool.not_eq_true'] at other
      simp [other]
  · rw [if_neg digits]
    rw [not_or, Bool.not_eq_true', Bool.not_eq_false] at digits
    rw [parse_loop roomy digits.2]
    simp only [digits.1, ne_eq, not_false_eq_true, true_and, digits.2]
    by_cases large : maximum < digitsValue 0 value
    · simp only [large, if_true, Option.bind_eq_bind, Option.bind_none]
      constructor
      · nofun
      · rintro ⟨rfl, -, small⟩
        omega
    · simp only [large, if_false, Option.bind_eq_bind, Option.bind_some]
      constructor
      · intro ok
        rw [Option.ite_none_left_eq_some, Option.some.injEq] at ok
        omega
      · rintro ⟨rfl, least, -⟩
        rw [if_neg (by omega)]

theorem code_toNat {c : Char} (digit : c.isDigit) : (code c).toNat = c.toNat ∧ 0x30 ≤ c.toNat ∧ c.toNat ≤ 0x39 := by
  have range : 0x30 ≤ c.toNat ∧ c.toNat ≤ 0x39 := Char.isDigit_iff_toNat.mp digit
  refine ⟨?_, range⟩
  rw [code, UInt8.toNat_ofNat']
  omega

theorem toString_digits (n : Nat) : toString n ≠ [] ∧ (toString n).all isDigit ∧ digitsValue 0 (toString n) = n := by
  have each : ∀ c ∈ decimal n, c.isDigit := fun c there => Nat.isDigit_of_mem_toDigits (by decide) (by decide) there
  refine ⟨?_, ?_, ?_⟩
  · simp [toString, decimal]
  · rw [toString, List.all_map, List.all_eq_true]
    intro c there
    obtain ⟨same, range⟩ := code_toNat (each c there)
    simp [isDigit, same, range]
  · have value : ∀ (text : Text) (start : Nat), (∀ c ∈ text, c.isDigit) →
        digitsValue start (text.map code) = Nat.ofDigitChars 10 text start := by
      intro text
      induction text with
      | nil => exact fun _ _ => rfl
      | cons c rest ih =>
        intro start all
        rw [List.forall_mem_cons] at all
        have here := (code_toNat all.1).1
        rw [List.map_cons, digitsValue, List.foldl_cons, ← digitsValue, ih _ all.2, here, Nat.ofDigitChars_cons]
        congr 1
        rw [Nat.mul_comm]
        rfl
    rw [toString, value _ _ each, decimal, Nat.ofDigitChars_ten_toDigits]

theorem parseUnsigned_toString {minimum maximum n : Nat} (roomy : 9 ≤ maximum) (least : minimum ≤ n) (most : n ≤ maximum) :
    parseUnsigned (toString n) minimum maximum = some n := by
  obtain ⟨present, digits, value⟩ := toString_digits n
  exact (parseUnsigned_eq_some_iff roomy).mpr ⟨present, digits, value, least, most⟩

end Numbers

section Bindings

theorem not_control_of_isDigit {ch : UInt8} (digit : isDigit ch) : isControl ch = false ∧ isUnreserved ch ∧ ch ≠ code '-' := by
  have alnum : isAlnum ch := by simp [isAlnum, digit]
  refine ⟨not_control_of_isAlnum alnum, by simp [isUnreserved, alnum], fun minus => ?_⟩
  subst minus
  revert digit
  decide

theorem toString_plain (n : Nat) : (toString n).any isControl = false ∧ code '-' ∉ toString n := by
  have digits := List.all_eq_true.mp (toString_digits n).2.1
  refine ⟨?_, fun there => (not_control_of_isDigit (digits _ there)).2.2 rfl⟩
  rw [List.any_eq_false]
  intro ch there
  simp [(not_control_of_isDigit (digits ch there)).1]

/-- What `parseMieruPortBinding` gives is read as it is. -/
structure MieruPortBinding.Normal (binding : MieruPortBinding) : Prop where
  again : parseMieruPortBinding binding.port binding.protocol = some binding
  port : binding.port ≠ [] ∧ binding.port.any isControl = false
  protocol : binding.protocol ≠ [] ∧ binding.protocol.any isControl = false

theorem parseMieruPortBinding_normal {port protocol : Bytes} {binding : MieruPortBinding}
    (ok : parseMieruPortBinding port protocol = some binding) : binding.Normal := by
  rw [parseMieruPortBinding, Option.ite_none_left_eq_some] at ok
  obtain ⟨known, ok⟩ := ok
  have transport : protocol ≠ [] ∧ protocol.any isControl = false := by
    rw [not_and_or, not_not, not_not] at known
    rcases known with rfl | rfl <;> decide
  cases cut : cutAt [code '-'] port with
  | none =>
    simp only [cut, Option.map_eq_some_iff] at ok
    obtain ⟨first, read, rfl⟩ := ok
    obtain ⟨-, -, -, least, most⟩ := (parseUnsigned_eq_some_iff (by decide)).mp read
    refine ⟨?_, ⟨(toString_digits first).1, (toString_plain first).1⟩, transport⟩
    rw [parseMieruPortBinding, if_neg known, cutAt_mark_none_iff.mpr (toString_plain first).2]
    simp only [parseUnsigned_toString (by decide) least most, Option.map_some]
  | some parts =>
    obtain ⟨left, right⟩ := parts
    simp only [cut, Option.bind_eq_bind, Option.ite_none_left_eq_some, Option.bind_eq_some_iff] at ok
    obtain ⟨-, first, readFirst, last, readLast, ordered, same⟩ := ok
    rw [Option.some.injEq] at same
    subst same
    obtain ⟨-, -, -, least, most⟩ := (parseUnsigned_eq_some_iff (by decide)).mp readFirst
    obtain ⟨-, -, -, least', most'⟩ := (parseUnsigned_eq_some_iff (by decide)).mp readLast
    have ends : ¬(toString first = [] ∨ toString last = [] ∨ code '-' ∈ toString last) := by
      simp [(toString_digits first).1, (toString_digits last).1, (toString_plain last).2]
    refine ⟨?_, ⟨by simp, ?_⟩, transport⟩
    · rw [parseMieruPortBinding, if_neg known, cutAt_mark_iff.mpr ⟨rfl, (toString_plain first).2⟩]
      simp only [if_neg ends, parseUnsigned_toString (by decide) least most, parseUnsigned_toString (by decide) least' most',
        Option.bind_eq_bind, Option.bind_some, if_neg ordered]
    · rw [List.any_append, List.any_cons, (toString_plain first).1, (toString_plain last).1]
      decide

theorem mapM_normal {α : Type} {read : α → Option MieruPortBinding} (normal : ∀ {x binding}, read x = some binding → binding.Normal)
    {sources : List α} {bindings : List MieruPortBinding} (ok : sources.mapM read = some bindings) :
    ∀ binding ∈ bindings, binding.Normal := by
  induction sources generalizing bindings with
  | nil =>
    rw [List.mapM_nil, Option.pure_def, Option.some.injEq] at ok
    simp [← ok]
  | cons source rest ih =>
    simp only [List.mapM_cons, Option.bind_eq_bind, Option.bind_eq_some_iff, Option.pure_def, Option.some.injEq] at ok
    obtain ⟨binding, first, more, later, rfl⟩ := ok
    rw [List.forall_mem_cons]
    exact ⟨normal first, ih later⟩

theorem mapM_again {bindings : List MieruPortBinding} (normal : ∀ binding ∈ bindings, binding.Normal) :
    (bindings.mapM fun binding => parseMieruPortBinding binding.port binding.protocol) = some bindings := by
  induction bindings with
  | nil => rfl
  | cons binding rest ih =>
    rw [List.forall_mem_cons] at normal
    rw [List.mapM_cons, normal.1.again, ih normal.2]
    rfl

end Bindings

section Hosts

theorem host_of_valid {host : Bytes} (valid : validMieruHost host) :
    host ≠ [] ∧ (∀ ch ∈ host, isControl ch = false ∧ ch ∉ ascii "/?#@[]") ∧
      (code ':' ∈ host → ∀ ch ∈ host, (hexValue ch).isSome ∨ ch = code ':' ∨ ch = code '.') := by
  rw [validMieruHost] at valid
  split at valid
  next => cases valid
  next plain =>
    simp only [not_or, Bool.not_eq_true, List.any_eq_false, Bool.or_eq_true, decide_eq_true_eq] at plain
    refine ⟨plain.1, fun ch there => ⟨?_, plain.2.2 ch there⟩, fun colon => ?_⟩
    · exact Bool.not_eq_true _ ▸ (plain.2.1 ch there).2
    · rw [if_neg (not_not.mpr colon)] at valid
      simpa [or_assoc] using valid

theorem literal_plain {ch : UInt8} (literal : (hexValue ch).isSome ∨ ch = code ':' ∨ ch = code '.') :
    ch ≠ code '%' ∧ ch ≠ code '+' ∧ isControl ch = false := by
  rcases literal with hex | rfl | rfl
  · refine ⟨fun percent => ?_, fun plus => ?_, ?_⟩
    · subst percent
      revert hex
      decide
    · subst plus
      revert hex
      decide
    · simp only [hexValue] at hex
      split at hex
      next => exact not_control (by omega) (by omega)
      next =>
        split at hex
        next => exact not_control (by omega) (by omega)
        next =>
          split at hex
          next => exact not_control (by omega) (by omega)
          next => cases hex
  · decide
  · decide

theorem any_control_of_valid {host : Bytes} (valid : validMieruHost host) : host.any isControl = false := by
  rw [List.any_eq_false]
  intro ch there
  simp [((host_of_valid valid).2.1 ch there).1]

theorem parseHost_buildAuthority {host : Bytes} (valid : validMieruHost host) : parseHost (buildAuthority host) = some host := by
  obtain ⟨present, plain, literal⟩ := host_of_valid valid
  have long := List.length_pos_iff.mpr present
  by_cases colon : code ':' ∈ host
  · have size : ¬((code '[' :: host ++ [code ']']).length < 3 ∨ (code '[' :: host ++ [code ']']).getLast? ≠ some (code ']')) := by
      rw [not_or, not_not, List.getLast?_concat, List.length_append, List.length_cons, List.length_singleton]
      exact ⟨by omega, rfl⟩
    have inner : ((code '[' :: host ++ [code ']']).drop 1).dropLast = host := by simp
    have read : decodeHost (code '[' :: host ++ [code ']']) = some host := by
      have opened : (code '[' :: host ++ [code ']']).head? = some (code '[') := rfl
      rw [decodeHost, if_pos opened, if_neg size, inner, percentDecode_plain fun ch there => literal_plain (literal colon ch there)]
    rw [buildAuthority, if_pos colon, parseHost, read]
    simp [valid]
  · have bare : (percentEncode host).head? ≠ some (code '[') := fun mark =>
      not_mem_percentEncode (by decide) (by decide) host (List.mem_of_head? mark)
    have read : decodeHost (percentEncode host) = some host := by
      rw [decodeHost, if_neg bare, if_neg (not_mem_percentEncode (by decide) (by decide) host), percentDecode_percentEncode,
        any_control_of_valid valid, if_neg Bool.false_ne_true]
    rw [buildAuthority, if_neg colon, parseHost, read]
    simp [valid, colon]

theorem not_mem_buildAuthority {host : Bytes} (valid : validMieruHost host) {mark : UInt8} (listed : mark ∈ ascii "/?#@") :
    mark ∉ buildAuthority host := by
  obtain ⟨-, plain, -⟩ := host_of_valid valid
  have marks : ∀ mark ∈ ascii "/?#@", isUnreserved mark = false ∧ mark ≠ code '%' ∧ mark ∈ ascii "/?#@[]" ∧
      mark ∉ [code '[', code ']'] := by
    decide
  obtain ⟨reserved, percent, separator, bracket⟩ := marks mark listed
  rw [buildAuthority]
  split
  next =>
    have inner : mark ∉ host := fun there => (plain mark there).2 separator
    simp only [List.mem_cons, List.not_mem_nil, or_false, not_or] at bracket
    simp [inner, bracket]
  next => exact not_mem_percentEncode reserved percent host

theorem buildAuthority_ne_nil {host : Bytes} (valid : validMieruHost host) : buildAuthority host ≠ [] := by
  rw [buildAuthority]
  split
  next => simp
  next => simpa using (host_of_valid valid).1

end Hosts

section Splitting

def bodyOf (username password authority : Bytes) : Bytes := username ++ code ':' :: (password ++ code '@' :: authority)

theorem not_mem_bodyOf {username password authority : Bytes} {mark : UInt8} (first : mark ∉ username) (second : mark ∉ password)
    (third : mark ∉ authority) (other : mark ≠ code ':' ∧ mark ≠ code '@') : mark ∉ bodyOf username password authority := by
  simp [bodyOf, first, second, third, other.1, other.2]

theorem cut_fragment {body query fragment tail : Bytes} (first : code '#' ∉ body) (second : code '#' ∉ query)
    (ending : (fragment = [] ∧ tail = []) ∨ tail = code '#' :: fragment) :
    (cutAt [code '#'] (body ++ code '?' :: (query ++ tail))).getD (body ++ code '?' :: (query ++ tail), []) =
      (body ++ code '?' :: query, fragment) := by
  have front : code '#' ∉ body ++ code '?' :: query := by
    simp only [List.mem_append, List.mem_cons, first, second, or_false, false_or]
    decide
  rcases ending with ⟨rfl, rfl⟩ | rfl
  · rw [List.append_nil, cutAt_mark_none_iff.mpr front, Option.getD_none]
  · have cut : cutAt [code '#'] (body ++ code '?' :: (query ++ code '#' :: fragment)) =
        some (body ++ code '?' :: query, fragment) := cutAt_mark_iff.mpr ⟨by simp, front⟩
    rw [cut, Option.getD_some]

theorem splitUri_assembled {username password authority query fragment tail : Bytes}
    (first : ∀ mark ∈ ascii "#?/@:", mark ∉ username) (second : ∀ mark ∈ ascii "#?/@", mark ∉ password)
    (third : ∀ mark ∈ ascii "#?/@", mark ∉ authority) (fourth : code '#' ∉ query)
    (named : username ≠ []) (secret : password ≠ []) (located : authority ≠ [])
    (ending : (fragment = [] ∧ tail = []) ∨ tail = code '#' :: fragment) :
    splitUri (ascii "mierus://" ++ (bodyOf username password authority ++ code '?' :: (query ++ tail))) =
      some ⟨username, password, authority, query, fragment⟩ := by
  have absent : ∀ mark ∈ ascii "#?/", mark ∉ bodyOf username password authority := by
    intro mark listed
    have wider : ∀ mark ∈ ascii "#?/", mark ∈ ascii "#?/@:" ∧ mark ∈ ascii "#?/@" ∧ mark ≠ code ':' ∧ mark ≠ code '@' := by decide
    obtain ⟨more, fewer, other⟩ := wider mark listed
    exact not_mem_bodyOf (first mark more) (second mark fewer) (third mark fewer) other
  have cutQuery : cutAt [code '?'] (bodyOf username password authority ++ code '?' :: query) =
      some (bodyOf username password authority, query) := cutAt_mark_iff.mpr ⟨rfl, absent _ (by decide)⟩
  have present : bodyOf username password authority ≠ [] := by simp [bodyOf]
  have last : afterLast (code '@') (bodyOf username password authority) = some authority := by
    simpa [bodyOf] using afterLast_append (third (code '@') (by decide)) (username ++ code ':' :: password)
  have userinfo : (bodyOf username password authority).take
      ((bodyOf username password authority).length - authority.length - 1) = username ++ code ':' :: password := by
    have whole : bodyOf username password authority = (username ++ code ':' :: password) ++ code '@' :: authority := by simp [bodyOf]
    rw [whole]
    apply List.take_left'
    simp only [List.length_append, List.length_cons]
    omega
  have cutName : cutAt [code ':'] (username ++ code ':' :: password) = some (username, password) :=
    cutAt_mark_iff.mpr ⟨rfl, first _ (by decide)⟩
  have starts : ¬((ascii "mierus://" ++ (bodyOf username password authority ++ code '?' :: (query ++ tail))).length ≤
      (ascii "mierus://").length ∨
      !(ascii "mierus://").isPrefixOf (ascii "mierus://" ++ (bodyOf username password authority ++ code '?' :: (query ++ tail)))) := by
    have begins := List.isPrefixOf_iff_prefix.mpr (List.prefix_append (ascii "mierus://")
      (bodyOf username password authority ++ code '?' :: (query ++ tail)))
    rw [begins, List.length_append, List.length_append]
    simp
  rw [splitUri]
  simp only [if_neg starts, List.drop_left, cut_fragment (absent _ (by decide)) fourth ending, cutQuery, Option.getD_some]
  rw [if_neg (not_or.mpr ⟨present, absent _ (by decide)⟩)]
  simp only [last, userinfo, Option.bind_eq_bind, Option.bind_some]
  rw [if_neg (by simp [located]), cutName]
  simp [named, secret]

end Splitting

section Queries

def parameter (entry : Bytes × Bytes) : Bytes := entry.1 ++ code '=' :: percentEncode entry.2

-- The parameters of a key, without the empty ones.
def parametersOf (key : Bytes) (values : List Bytes) : QueryValues := (values.filter fun value => value ≠ []).map fun value => (key, value)

def written (config : MieruSimpleConfig) (bindings : List MieruPortBinding) : QueryValues :=
  parametersOf (ascii "profile") [config.profile] ++
  parametersOf (ascii "mtu") (if config.mtu ≠ 0 then [toString config.mtu.toNat] else []) ++
  parametersOf (ascii "multiplexing") [config.multiplexing] ++
  parametersOf (ascii "handshake-mode") [config.handshakeMode] ++
  parametersOf (ascii "traffic-pattern") [config.trafficPattern] ++
  parametersOf (ascii "port") (bindings.map MieruPortBinding.port) ++
  parametersOf (ascii "protocol") (bindings.map MieruPortBinding.protocol)

theorem appendQueryParameter_map (query : QueryValues) (key value : Bytes) :
    appendQueryParameter (query.map parameter) key value = (query ++ parametersOf key [value]).map parameter := by
  rw [appendQueryParameter]
  split
  next empty => simp [empty, parametersOf]
  next present => simp [present, parametersOf, parameter]

theorem foldl_appendQueryParameter (key : Bytes) (value : MieruPortBinding → Bytes) (bindings : List MieruPortBinding)
    (query : QueryValues) :
    bindings.foldl (fun query binding => appendQueryParameter query key (value binding)) (query.map parameter) =
      (query ++ parametersOf key (bindings.map value)).map parameter := by
  induction bindings generalizing query with
  | nil => simp [parametersOf]
  | cons binding rest ih =>
    rw [List.foldl_cons, appendQueryParameter_map, ih, List.append_assoc]
    simp only [parametersOf, List.map_cons, ← List.map_append, ← List.filter_append, List.singleton_append]

theorem parameterOf_parameter {key : Bytes} (plain : key.all isUnreserved) (value : Bytes) :
    parameterOf (parameter (key, value)) = if value.any isControl then none else some (key, value) := by
  have each := List.all_eq_true.mp plain
  have equals : code '=' ∉ key := fun there => absurd (each _ there) (by decide)
  have same : percentDecode true key = some key := percentDecode_plain fun ch there => plain_of_isUnreserved (each ch there)
  rw [parameterOf, parameter, cutAt_mark_iff.mpr ⟨rfl, equals⟩]
  simp only [Option.getD_some, same, percentDecode_percentEncode, Option.bind_eq_bind, Option.bind_some]
  cases value.any isControl <;> rfl

theorem parseQuery_parameters {query : QueryValues} (plain : ∀ entry ∈ query, entry.1.all isUnreserved) :
    parseQuery ([code '&'].intercalate (query.map parameter)) =
      if query.any (fun entry => entry.2.any isControl) then none else some query := by
  have separate : ∀ part ∈ query.map parameter, code '&' ∉ part := by
    intro part there
    obtain ⟨entry, among, rfl⟩ := List.mem_map.mp there
    have key : code '&' ∉ entry.1 := fun there => absurd (List.all_eq_true.mp (plain entry among) _ there) (by decide)
    have value := not_mem_percentEncode (show isUnreserved (code '&') = false by decide) (by decide) entry.2
    simp only [parameter, List.mem_append, List.mem_cons, key, value, or_false, false_or]
    decide
  have parts : (([code '&'].intercalate (query.map parameter)).splitOn (code '&')).filter (fun part => part ≠ []) =
      query.map parameter := by
    by_cases none : query = []
    · simp [none]
    · rw [List.splitOn_intercalate _ separate (by simpa using none), List.filter_eq_self]
      intro part there
      obtain ⟨entry, -, rfl⟩ := List.mem_map.mp there
      simp [parameter]
  rw [parseQuery, parts]
  clear parts separate
  induction query with
  | nil => rfl
  | cons entry rest ih =>
    rw [List.forall_mem_cons] at plain
    rw [List.map_cons, List.mapM_cons, ih plain.2, parameterOf_parameter plain.1, List.any_cons]
    cases entry.2.any isControl <;> cases rest.any (fun entry => entry.2.any isControl) <;> rfl

theorem queryValues_append (first second : QueryValues) (key : Bytes) :
    queryValues (first ++ second) key = queryValues first key ++ queryValues second key := by
  simp [queryValues]

theorem queryValues_parametersOf (key : Bytes) (values : List Bytes) :
    queryValues (parametersOf key values) key = values.filter fun value => value ≠ [] := by
  simp [queryValues, parametersOf, List.filter_map, Function.comp_def]

theorem queryValues_parametersOf_other {key other : Bytes} (different : key ≠ other) (values : List Bytes) :
    queryValues (parametersOf key values) other = [] := by
  simp [queryValues, parametersOf, List.filter_map, Function.comp_def, different]

section Written

variable (config : MieruSimpleConfig) (bindings : List MieruPortBinding)

theorem queryValues_written :
    queryValues (written config bindings) (ascii "profile") = [config.profile].filter (fun value => value ≠ []) ∧
    queryValues (written config bindings) (ascii "mtu") =
      (if config.mtu ≠ 0 then [toString config.mtu.toNat] else []).filter (fun value => value ≠ []) ∧
    queryValues (written config bindings) (ascii "multiplexing") = [config.multiplexing].filter (fun value => value ≠ []) ∧
    queryValues (written config bindings) (ascii "handshake-mode") = [config.handshakeMode].filter (fun value => value ≠ []) ∧
    queryValues (written config bindings) (ascii "traffic-pattern") = [config.trafficPattern].filter (fun value => value ≠ []) ∧
    queryValues (written config bindings) (ascii "port") = (bindings.map MieruPortBinding.port).filter (fun value => value ≠ []) ∧
    queryValues (written config bindings) (ascii "protocol") =
      (bindings.map MieruPortBinding.protocol).filter (fun value => value ≠ []) := by
  refine ⟨?_, ?_, ?_, ?_, ?_, ?_, ?_⟩ <;>
    simp only [written, queryValues_append, queryValues_parametersOf] <;>
    repeat rw [queryValues_parametersOf_other (by decide)]
  all_goals simp only [List.nil_append, List.append_nil]

theorem written_keys : ∀ entry ∈ written config bindings, knownMieruQueryKey entry.1 ∧ entry.1.all isUnreserved := by
  have each : ∀ {key : Bytes} (values : List Bytes), knownMieruQueryKey key ∧ key.all isUnreserved →
      ∀ entry ∈ parametersOf key values, knownMieruQueryKey entry.1 ∧ entry.1.all isUnreserved := by
    intro key values known entry there
    obtain ⟨value, -, rfl⟩ := List.mem_map.mp there
    exact known
  simp only [written, List.forall_mem_append]
  exact ⟨⟨⟨⟨⟨⟨each _ (by decide), each _ (by decide)⟩, each _ (by decide)⟩, each _ (by decide)⟩, each _ (by decide)⟩,
    each _ (by decide)⟩, each _ (by decide)⟩

end Written

theorem readSingleton_optional {query : QueryValues} {key value : Bytes}
    (values : queryValues query key = [value].filter fun value => value ≠ []) : readSingleton query key false = some value := by
  by_cases empty : value = []
  · simp [readSingleton, values, empty]
  · simp [readSingleton, values, empty]

end Queries

section RoundTrip

/-- What `buildMieruSimpleUri` checks of the fields. -/
structure Buildable (config : MieruSimpleConfig) : Prop where
  username : config.username ≠ []
  password : config.password ≠ []
  host : validMieruHost config.host
  profile : config.profile ≠ []
  known : config.hasUnknownParameters = false
  mtu : config.mtu = 0 ∨ 1280 ≤ config.mtu.toNat ∧ config.mtu.toNat ≤ 1400
  multiplexing : isValidMieruMultiplexing config.multiplexing
  handshakeMode : isValidMieruHandshakeMode config.handshakeMode
  trafficPattern : isValidMieruTrafficPattern config.trafficPattern
  portBindings : config.portBindings ≠ []

theorem mtu_iff (mtu : UInt16) :
    ¬(mtu ≠ 0 ∧ (mtu < 1280 ∨ 1400 < mtu)) ↔ mtu = 0 ∨ 1280 ≤ mtu.toNat ∧ mtu.toNat ≤ 1400 := by
  rw [UInt16.lt_iff_toNat_lt, UInt16.lt_iff_toNat_lt, not_and_or, not_not, not_or, not_lt, not_lt]
  rfl

theorem buildable_iff {config : MieruSimpleConfig} :
    ¬(config.username = [] ∨ config.password = [] ∨ !validMieruHost config.host ∨ config.profile = [] ∨
      config.hasUnknownParameters ∨ (config.mtu ≠ 0 ∧ (config.mtu < 1280 ∨ 1400 < config.mtu)) ∨
      !isValidMieruMultiplexing config.multiplexing ∨ !isValidMieruHandshakeMode config.handshakeMode ∨
      !isValidMieruTrafficPattern config.trafficPattern ∨ config.portBindings = []) ↔ Buildable config := by
  rw [not_or, not_or, not_or, not_or, not_or, not_or, not_or, not_or, not_or, mtu_iff]
  simp only [Bool.not_eq_true', Bool.not_eq_false, Bool.not_eq_true]
  constructor
  · rintro ⟨username, password, host, profile, known, mtu, multiplexing, handshakeMode, trafficPattern, portBindings⟩
    exact ⟨username, password, host, profile, known, mtu, multiplexing, handshakeMode, trafficPattern, portBindings⟩
  · rintro ⟨username, password, host, profile, known, mtu, multiplexing, handshakeMode, trafficPattern, portBindings⟩
    exact ⟨username, password, host, profile, known, mtu, multiplexing, handshakeMode, trafficPattern, portBindings⟩

def normalBindings (config : MieruSimpleConfig) : Option (List MieruPortBinding) :=
  config.portBindings.mapM fun candidate => parseMieruPortBinding candidate.port candidate.protocol

def assembled (config : MieruSimpleConfig) (bindings : List MieruPortBinding) : Bytes :=
  ascii "mierus://" ++ (bodyOf (percentEncode config.username) (percentEncode config.password) (buildAuthority config.host) ++
    code '?' :: ([code '&'].intercalate ((written config bindings).map parameter) ++
      if config.remark = [] then [] else code '#' :: percentEncode config.remark))

theorem buildMieruSimpleUri_iff {config : MieruSimpleConfig} {built : Bytes} :
    buildMieruSimpleUri config = some built ↔
      Buildable config ∧ ∃ bindings, normalBindings config = some bindings ∧ built = assembled config bindings := by
  have query : ∀ bindings, (written config bindings).map parameter =
      bindings.foldl (fun query binding => appendQueryParameter query (ascii "protocol") binding.protocol)
        (bindings.foldl (fun query binding => appendQueryParameter query (ascii "port") binding.port)
          (appendQueryParameter (appendQueryParameter (appendQueryParameter
            (if config.mtu ≠ 0 then appendQueryParameter (appendQueryParameter [] (ascii "profile") config.profile) (ascii "mtu")
              (toString config.mtu.toNat) else appendQueryParameter [] (ascii "profile") config.profile)
            (ascii "multiplexing") config.multiplexing) (ascii "handshake-mode") config.handshakeMode)
            (ascii "traffic-pattern") config.trafficPattern)) := by
    intro bindings
    have first : appendQueryParameter [] (ascii "profile") config.profile =
        (parametersOf (ascii "profile") [config.profile]).map parameter := by
      simpa using appendQueryParameter_map [] (ascii "profile") config.profile
    have second : (if config.mtu ≠ 0 then appendQueryParameter
          ((parametersOf (ascii "profile") [config.profile]).map parameter) (ascii "mtu") (toString config.mtu.toNat)
        else (parametersOf (ascii "profile") [config.profile]).map parameter) =
        (parametersOf (ascii "profile") [config.profile] ++
          parametersOf (ascii "mtu") (if config.mtu ≠ 0 then [toString config.mtu.toNat] else [])).map parameter := by
      split
      next => exact appendQueryParameter_map _ _ _
      next => simp [parametersOf]
    rw [first, second, appendQueryParameter_map, appendQueryParameter_map, appendQueryParameter_map,
      foldl_appendQueryParameter, foldl_appendQueryParameter, written]
  rw [buildMieruSimpleUri, Option.ite_none_left_eq_some, buildable_iff, Option.bind_eq_bind, Option.bind_eq_some_iff]
  simp only [← query, Option.pure_def, Option.some.injEq]
  refine and_congr_right fun _ => exists_congr fun bindings => and_congr_right fun _ => ?_
  simp only [assembled, bodyOf, List.append_assoc, List.cons_append]
  exact eq_comm

def controlled (config : MieruSimpleConfig) : Bool :=
  config.username.any isControl || config.password.any isControl || config.profile.any isControl || config.remark.any isControl

theorem bindings_ne_nil {config : MieruSimpleConfig} {bindings : List MieruPortBinding} (present : config.portBindings ≠ [])
    (normal : normalBindings config = some bindings) : bindings ≠ [] := by
  obtain ⟨first, rest, whole⟩ := List.exists_cons_of_ne_nil present
  rw [normalBindings, whole, List.mapM_cons] at normal
  simp only [Option.bind_eq_bind, Option.bind_eq_some_iff, Option.pure_def, Option.some.injEq] at normal
  obtain ⟨binding, -, more, -, rfl⟩ := normal
  simp

theorem base64_plain {value : Bytes} (valid : decodeAndValidateProtobufBase64 value) : value.any isControl = false := by
  have letter : ∀ ch : UInt8, (isAlnum ch || ch = code '+' || ch = code '/') ∨ ch = code '=' → isControl ch = false := by
    intro ch read
    simp only [Bool.or_eq_true, decide_eq_true_eq] at read
    rcases read with ((alnum | rfl) | rfl) | rfl
    · exact not_control_of_isAlnum alnum
    · rfl
    · rfl
    · rfl
  rw [decodeAndValidateProtobufBase64] at valid
  split at valid
  next => cases valid
  next =>
    split at valid
    next => cases valid
    next plain =>
      obtain ⟨tail, whole⟩ := List.takeWhile_prefix (l := value) fun ch => ch ≠ code '='
      have behind : ∀ body : Bytes, body ++ tail = value → value.drop body.length = tail := by
        rintro body rfl
        exact List.drop_left
      rw [behind _ whole, not_or, Bool.not_eq_true', Bool.not_eq_false, Bool.not_eq_true', Bool.not_eq_false, List.all_eq_true,
        List.all_eq_true] at plain
      rw [← whole, List.any_append, Bool.or_eq_false_iff, List.any_eq_false, List.any_eq_false]
      exact ⟨fun ch there => by simp [letter ch (.inl (plain.2 ch there))],
        fun ch there => by simp [letter ch (.inr (by simpa using plain.1 ch there))]⟩

theorem valid_plain {config : MieruSimpleConfig} (buildable : Buildable config) :
    config.multiplexing.any isControl = false ∧ config.handshakeMode.any isControl = false ∧
      config.trafficPattern.any isControl = false := by
  refine ⟨?_, ?_, ?_⟩
  · have valid := buildable.multiplexing
    simp only [isValidMieruMultiplexing, decide_eq_true_eq, List.mem_cons, List.not_mem_nil, or_false] at valid
    rcases valid with same | same | same | same | same <;> rw [same] <;> decide
  · have valid := buildable.handshakeMode
    simp only [isValidMieruHandshakeMode, decide_eq_true_eq, List.mem_cons, List.not_mem_nil, or_false] at valid
    rcases valid with same | same | same <;> rw [same] <;> decide
  · have valid := buildable.trafficPattern
    rw [isValidMieruTrafficPattern, Bool.or_eq_true, decide_eq_true_eq] at valid
    rcases valid with empty | valid
    · simp [empty]
    · exact base64_plain valid

theorem any_control_written {config : MieruSimpleConfig} {bindings : List MieruPortBinding} (buildable : Buildable config)
    (normal : ∀ binding ∈ bindings, binding.Normal) :
    (written config bindings).any (fun entry => entry.2.any isControl) = config.profile.any isControl := by
  have of : ∀ (key : Bytes) (values : List Bytes), (∀ value ∈ values, value.any isControl = false) →
      (parametersOf key values).any (fun entry => entry.2.any isControl) = false := by
    intro key values plain
    rw [List.any_eq_false]
    intro entry there
    obtain ⟨value, among, rfl⟩ := List.mem_map.mp there
    simpa using plain value (List.mem_filter.mp among).1
  have profile : (parametersOf (ascii "profile") [config.profile]).any (fun entry => entry.2.any isControl) =
      config.profile.any isControl := by
    simp [parametersOf, buildable.profile]
  obtain ⟨multiplexing, handshakeMode, trafficPattern⟩ := valid_plain buildable
  have mtu : ∀ value ∈ (if config.mtu ≠ 0 then [toString config.mtu.toNat] else []), value.any isControl = false := by
    split
    next => simpa using (toString_plain config.mtu.toNat).1
    next => simp
  have port : ∀ value ∈ bindings.map MieruPortBinding.port, value.any isControl = false := by
    intro value there
    obtain ⟨binding, among, rfl⟩ := List.mem_map.mp there
    exact (normal binding among).port.2
  have protocol : ∀ value ∈ bindings.map MieruPortBinding.protocol, value.any isControl = false := by
    intro value there
    obtain ⟨binding, among, rfl⟩ := List.mem_map.mp there
    exact (normal binding among).protocol.2
  simp only [written, List.any_append, profile, of _ _ mtu, of _ _ port, of _ _ protocol,
    of _ _ (List.forall_mem_singleton.mpr multiplexing), of _ _ (List.forall_mem_singleton.mpr handshakeMode),
    of _ _ (List.forall_mem_singleton.mpr trafficPattern), Bool.or_false]

theorem not_mem_written {mark : UInt8} (reserved : isUnreserved mark = false) (other : mark ≠ code '%' ∧ mark ≠ code '=' ∧ mark ≠ code '&')
    (config : MieruSimpleConfig) (bindings : List MieruPortBinding) :
    mark ∉ [code '&'].intercalate ((written config bindings).map parameter) := by
  refine not_mem_intercalate other.2.2 fun part there => ?_
  obtain ⟨entry, among, rfl⟩ := List.mem_map.mp there
  have key : mark ∉ entry.1 := by
    intro inside
    have unreserved := List.all_eq_true.mp (written_keys config bindings entry among).2 mark inside
    rw [reserved] at unreserved
    cases unreserved
  simp [parameter, key, not_mem_percentEncode reserved other.1, other.2.1]

theorem splitUri_built {config : MieruSimpleConfig} (buildable : Buildable config) (bindings : List MieruPortBinding) :
    splitUri (assembled config bindings) =
      some ⟨percentEncode config.username, percentEncode config.password, buildAuthority config.host,
        [code '&'].intercalate ((written config bindings).map parameter), percentEncode config.remark⟩ := by
  have encoded : ∀ (text : Bytes), ∀ mark ∈ ascii "#?/@:", mark ∉ percentEncode text := by
    intro text mark listed
    have marks : ∀ mark ∈ ascii "#?/@:", isUnreserved mark = false ∧ mark ≠ code '%' := by decide
    exact not_mem_percentEncode (marks mark listed).1 (marks mark listed).2 text
  have wider : ∀ mark ∈ ascii "#?/@", mark ∈ ascii "#?/@:" ∧ mark ∈ ascii "/?#@" := by decide
  apply splitUri_assembled
  · exact encoded _
  · exact fun mark listed => encoded _ mark (wider mark listed).1
  · exact fun mark listed => not_mem_buildAuthority buildable.host (wider mark listed).2
  · exact not_mem_written (by decide) (by decide) config bindings
  · simpa using buildable.username
  · simpa using buildable.password
  · exact buildAuthority_ne_nil buildable.host
  · by_cases empty : config.remark = []
    · exact .inl ⟨by simpa using empty, if_pos empty⟩
    · exact .inr (if_neg empty)

theorem readSingleton_mtu (config : MieruSimpleConfig) (bindings : List MieruPortBinding) :
    readSingleton (written config bindings) (ascii "mtu") false =
      some (if config.mtu ≠ 0 then toString config.mtu.toNat else []) := by
  have values := (queryValues_written config bindings).2.1
  rw [readSingleton, values]
  by_cases absent : config.mtu = 0
  · simp [absent]
  · simp [absent, (toString_digits config.mtu.toNat).1]

theorem parseMtu_written {config : MieruSimpleConfig} (buildable : Buildable config) :
    parseMtu (if config.mtu ≠ 0 then toString config.mtu.toNat else []) = some config.mtu := by
  rcases buildable.mtu with absent | ⟨least, most⟩
  · simp [absent, parseMtu]
  · have present : config.mtu ≠ 0 := by
      intro zero
      rw [zero] at least
      exact absurd least (by decide)
    rw [if_pos present, parseMtu, if_neg (toString_digits _).1, parseUnsigned_toString (by decide) least most,
      Option.map_some, UInt16.ofNat_toNat]

theorem parseBindings_written {bindings : List MieruPortBinding} (present : bindings ≠ [])
    (normal : ∀ binding ∈ bindings, binding.Normal) (config : MieruSimpleConfig) :
    parseBindings (queryValues (written config bindings) (ascii "port")) (queryValues (written config bindings) (ascii "protocol")) =
      some bindings := by
  obtain ⟨-, -, -, -, -, ports, protocols⟩ := queryValues_written config bindings
  have port : (bindings.map MieruPortBinding.port).filter (fun value => value ≠ []) = bindings.map MieruPortBinding.port := by
    rw [List.filter_eq_self]
    intro value there
    obtain ⟨binding, among, rfl⟩ := List.mem_map.mp there
    simpa using (normal binding among).port.1
  have protocol : (bindings.map MieruPortBinding.protocol).filter (fun value => value ≠ []) =
      bindings.map MieruPortBinding.protocol := by
    rw [List.filter_eq_self]
    intro value there
    obtain ⟨binding, among, rfl⟩ := List.mem_map.mp there
    simpa using (normal binding among).protocol.1
  rw [ports, protocols, port, protocol, parseBindings, if_neg (by simp [present]), List.zip_map', List.mapM_map]
  exact mapM_again normal

theorem parse_assembled {config : MieruSimpleConfig} {bindings : List MieruPortBinding} (buildable : Buildable config)
    (normal : normalBindings config = some bindings) :
    parseMieruSimpleUri (assembled config bindings) =
      if controlled config then none else some { config with portBindings := bindings } := by
  have all := mapM_normal parseMieruPortBinding_normal normal
  have present := bindings_ne_nil buildable.portBindings normal
  have known : (written config bindings).any (fun entry => !knownMieruQueryKey entry.1) = false := by
    rw [List.any_eq_false]
    intro entry there
    simp [(written_keys config bindings entry there).1]
  have profile : readSingleton (written config bindings) (ascii "profile") true = some config.profile := by
    rw [readSingleton, (queryValues_written config bindings).1]
    simp [buildable.profile]
  obtain ⟨-, -, multiplexing, handshakeMode, trafficPattern, -, -⟩ := queryValues_written config bindings
  have choices : ¬(!isValidMieruMultiplexing config.multiplexing ∨ !isValidMieruHandshakeMode config.handshakeMode ∨
      !isValidMieruTrafficPattern config.trafficPattern) := by
    simp [buildable.multiplexing, buildable.handshakeMode, buildable.trafficPattern]
  have read : parseQuery ([code '&'].intercalate ((written config bindings).map parameter)) =
      if config.profile.any isControl then none else some (written config bindings) := by
    rw [parseQuery_parameters fun entry there => (written_keys config bindings entry there).2, any_control_written buildable all]
  have named : ¬(config.username = [] ∨ config.password = []) := not_or.mpr ⟨buildable.username, buildable.password⟩
  rw [parseMieruSimpleUri, splitUri_built buildable, controlled]
  rw [Option.bind_eq_bind, Option.bind_some]
  dsimp only
  rw [percentDecode_percentEncode, percentDecode_percentEncode, percentDecode_percentEncode]
  cases remark : config.remark.any isControl
  case true =>
    rw [if_pos rfl, Option.bind_eq_bind, Option.bind_none]
    simp only [Bool.or_true, if_true]
  rw [if_neg Bool.false_ne_true, Option.bind_eq_bind, Option.bind_some]
  cases username : config.username.any isControl
  case true =>
    rw [if_pos rfl, Option.bind_eq_bind, Option.bind_none]
    simp only [Bool.true_or, if_true]
  rw [if_neg Bool.false_ne_true, Option.bind_eq_bind, Option.bind_some]
  cases password : config.password.any isControl
  case true =>
    rw [if_pos rfl, Option.bind_eq_bind, Option.bind_none]
    simp only [Bool.or_true, Bool.true_or, if_true]
  rw [if_neg Bool.false_ne_true, Option.bind_eq_bind, Option.bind_some, if_neg named, parseHost_buildAuthority buildable.host,
    Option.bind_some, read]
  cases inProfile : config.profile.any isControl
  case true =>
    rw [if_pos rfl, Option.bind_none]
    simp only [Bool.or_true, Bool.true_or, if_true]
  rw [if_neg Bool.false_ne_true, Option.bind_some, profile, readSingleton_optional multiplexing,
    readSingleton_optional handshakeMode, readSingleton_optional trafficPattern, Option.bind_some, Option.bind_some,
    Option.bind_some, Option.bind_some, if_neg choices, readSingleton_mtu, Option.bind_some, parseMtu_written buildable,
    Option.bind_some, parseBindings_written present all, known, buildable.known]
  rfl

theorem parse_build_iff {config : MieruSimpleConfig} {built : Bytes} (ok : buildMieruSimpleUri config = some built) :
    (∃ bindings, normalBindings config = some bindings ∧
      parseMieruSimpleUri built = some { config with portBindings := bindings }) ↔ controlled config = false := by
  obtain ⟨buildable, bindings, normal, rfl⟩ := buildMieruSimpleUri_iff.mp ok
  rw [parse_assembled buildable normal]
  constructor
  · rintro ⟨other, -, accepted⟩
    rw [Option.ite_none_left_eq_some] at accepted
    exact Bool.not_eq_true _ ▸ accepted.1
  · intro plain
    exact ⟨bindings, normal, if_neg (by simp [plain])⟩

def sampleConfig (remark : Bytes) : MieruSimpleConfig :=
  { username := ascii "u@x", password := ascii "p:%", host := ascii "::1", profile := ascii "a b", remark := remark, mtu := 1400,
    multiplexing := ascii "MULTIPLEXING_LOW", portBindings := [⟨ascii "080-90", ascii "TCP", false⟩, ⟨ascii "443", ascii "UDP", true⟩] }

def sampleUri (remark : Bytes) : Bytes :=
  ascii "mierus://u%40x:p%3A%25@[::1]?profile=a%20b&mtu=1400&multiplexing=MULTIPLEXING_LOW&" ++
    ascii "port=80-90&port=443&protocol=TCP&protocol=UDP" ++ remark

theorem parse_build_sample :
    ∃ bindings, normalBindings (sampleConfig (ascii "a#b")) = some bindings ∧
      parseMieruSimpleUri (sampleUri (ascii "#a%23b")) = some { sampleConfig (ascii "a#b") with portBindings := bindings } :=
  (parse_build_iff (show buildMieruSimpleUri (sampleConfig (ascii "a#b")) = some (sampleUri (ascii "#a%23b")) by
    decide)).mpr (by decide)

theorem build_unreadable :
    ∃ config built, buildMieruSimpleUri config = some built ∧ built = sampleUri (ascii "#a%09b") ∧
      parseMieruSimpleUri built = none :=
  ⟨sampleConfig (ascii "a\tb"), sampleUri (ascii "#a%09b"), by decide +kernel, rfl, by decide +kernel⟩

theorem parsed_query {raw : Bytes} {query : QueryValues} (ok : parseQuery raw = some query) :
    ∀ entry ∈ query, entry.2.any isControl = false := by
  rw [parseQuery] at ok
  generalize (raw.splitOn (code '&')).filter (fun part => part ≠ []) = parts at ok
  induction parts generalizing query with
  | nil =>
    rw [List.mapM_nil, Option.pure_def, Option.some.injEq] at ok
    simp [← ok]
  | cons part rest ih =>
    simp only [List.mapM_cons, Option.bind_eq_bind, Option.bind_eq_some_iff, Option.pure_def, Option.some.injEq] at ok
    obtain ⟨entry, first, more, later, rfl⟩ := ok
    simp only [parameterOf, Option.bind_eq_bind, Option.bind_eq_some_iff, Option.pure_def, Option.some.injEq] at first
    obtain ⟨key, -, value, read, rfl⟩ := first
    rw [List.forall_mem_cons]
    exact ⟨decoded_plain read, ih later⟩

theorem readSingleton_required {query : QueryValues} {key value : Bytes} (ok : readSingleton query key true = some value) :
    value ≠ [] ∧ ∃ entry ∈ query, entry.2 = value := by
  rw [readSingleton] at ok
  split at ok
  next => simp at ok
  next only values =>
    rw [Option.ite_none_left_eq_some, Option.some.injEq] at ok
    obtain ⟨present, rfl⟩ := ok
    have there : only ∈ queryValues query key := by simp [values]
    obtain ⟨entry, among, same⟩ := List.mem_map.mp there
    exact ⟨present, entry, (List.mem_filter.mp among).1, same⟩
  next => cases ok

theorem parsed_host {authority host : Bytes} (ok : parseHost authority = some host) : validMieruHost host := by
  simp only [parseHost, Option.bind_eq_bind, Option.bind_eq_some_iff] at ok
  obtain ⟨read, -, ok⟩ := ok
  rw [Option.ite_none_left_eq_some, not_or, Bool.not_eq_true', Bool.not_eq_false, Option.some.injEq] at ok
  exact ok.2 ▸ ok.1.1

theorem parsed_mtu {text : Bytes} {mtu : UInt16} (ok : parseMtu text = some mtu) :
    mtu = 0 ∨ 1280 ≤ mtu.toNat ∧ mtu.toNat ≤ 1400 := by
  rw [parseMtu] at ok
  split at ok
  next => exact .inl (Option.some.inj ok).symm
  next =>
    obtain ⟨n, read, rfl⟩ := Option.map_eq_some_iff.mp ok
    obtain ⟨-, -, -, least, most⟩ := (parseUnsigned_eq_some_iff (by decide)).mp read
    rw [UInt16.toNat_ofNat', Nat.mod_eq_of_lt (by omega)]
    exact .inr ⟨least, most⟩

theorem parsed_bindings {ports protocols : List Bytes} {bindings : List MieruPortBinding}
    (ok : parseBindings ports protocols = some bindings) : bindings ≠ [] ∧ ∀ binding ∈ bindings, binding.Normal := by
  rw [parseBindings, Option.ite_none_left_eq_some, not_or, not_or] at ok
  obtain ⟨⟨present, present', -⟩, ok⟩ := ok
  refine ⟨?_, mapM_normal parseMieruPortBinding_normal ok⟩
  obtain ⟨port, ports, rfl⟩ := List.exists_cons_of_ne_nil present
  obtain ⟨protocol, protocols, rfl⟩ := List.exists_cons_of_ne_nil present'
  rw [List.zip_cons_cons, List.mapM_cons] at ok
  simp only [Option.bind_eq_bind, Option.bind_eq_some_iff, Option.pure_def, Option.some.injEq] at ok
  obtain ⟨binding, -, more, -, rfl⟩ := ok
  simp

theorem bind_some_iff {α β : Type} {x : Option α} {next : α → Option β} {b : β} :
    (x >>= next) = some b ↔ ∃ a, x = some a ∧ next a = some b := Option.bind_eq_some_iff

theorem parsed_buildable {uri : Bytes} {config : MieruSimpleConfig} (ok : parseMieruSimpleUri uri = some config)
    (known : config.hasUnknownParameters = false) :
    Buildable config ∧ normalBindings config = some config.portBindings ∧ controlled config = false := by
  rw [parseMieruSimpleUri] at ok
  -- The outermost bind first: the other way round every bind is visited twice.
  simp only [↓bind_some_iff, ↓Option.ite_none_left_eq_some, Option.pure_def, Option.some.injEq] at ok
  obtain ⟨parts, -, remark, readRemark, username, readUsername, password, readPassword, named, host, readHost, query, readQuery,
    profile, readProfile, multiplexing, -, handshakeMode, -, trafficPattern, -, choices, text, -, mtu, readMtu, bindings,
    readBindings, rfl⟩ := ok
  simp only [not_or, Bool.not_eq_true', Bool.not_eq_false] at named choices
  obtain ⟨present, entry, among, rfl⟩ := readSingleton_required readProfile
  obtain ⟨bound, normal⟩ := parsed_bindings readBindings
  refine ⟨⟨named.1, named.2, parsed_host readHost, present, known, parsed_mtu readMtu, choices.1, choices.2.1, choices.2.2, bound⟩,
    mapM_again normal, ?_⟩
  simp only [controlled, decoded_plain readUsername, decoded_plain readPassword, parsed_query readQuery entry among,
    decoded_plain readRemark, Bool.or_self]

theorem build_parse {uri : Bytes} {config : MieruSimpleConfig} (ok : parseMieruSimpleUri uri = some config)
    (known : config.hasUnknownParameters = false) :
    ∃ built, buildMieruSimpleUri config = some built ∧ parseMieruSimpleUri built = some config := by
  obtain ⟨buildable, normal, plain⟩ := parsed_buildable ok known
  refine ⟨assembled config config.portBindings, buildMieruSimpleUri_iff.mpr ⟨buildable, _, normal, rfl⟩, ?_⟩
  rw [parse_assembled buildable normal, plain, if_neg Bool.false_ne_true]

theorem build_parse_sample :
    ∃ built, buildMieruSimpleUri { sampleConfig [] with portBindings := [⟨ascii "80", ascii "TCP", false⟩] } = some built ∧
      parseMieruSimpleUri built = some { sampleConfig [] with portBindings := [⟨ascii "80", ascii "TCP", false⟩] } :=
  build_parse
    (show parseMieruSimpleUri (ascii "mierus://u%40x:p%3A%25@[::1]?port=0080&multiplexing=MULTIPLEXING_LOW&profile=a+b&&" ++
      ascii "mtu=01400&protocol=TCP#") =
      some { sampleConfig [] with portBindings := [⟨ascii "80", ascii "TCP", false⟩] } by decide +kernel) rfl

end RoundTrip

end SubConverter.Parser
