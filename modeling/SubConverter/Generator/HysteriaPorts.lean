import SubConverter.Generator.RuleTargets
import SubConverter.Generator.StashReferences
import SubConverter.Handler.Spelling
import SubConverter.Lib.Stripped
import SubConverter.Parser.ShareUri

set_option autoImplicit false

namespace SubConverter.Generator

open Handler (split trim digitsValue atoi_digits)
open Parser.ShareUri

section Specs

structure Hysteria2Ports where
  port : Nat
  ports : Text
  hysteria2PortsAreAdditional : Bool
deriving DecidableEq, Repr

def hysteria2PortSpec (proxy : Hysteria2Ports) : Text :=
  if proxy.ports = [] then decimal proxy.port
  else if proxy.hysteria2PortsAreAdditional then decimal proxy.port ++ ',' :: proxy.ports
  else proxy.ports

def singBoxRange (token : Text) : Text :=
  let token := trim token
  match cutAt ['-'] token with
  | none => token ++ ':' :: token
  | some (start, last) => start ++ ':' :: last

def singBoxHysteria2PortSpec (proxy : Hysteria2Ports) : Text :=
  [','].intercalate ((split (hysteria2PortSpec proxy) ',').map singBoxRange)

end Specs

section Meaning

def tokenPorts (separator : Char) (token : Text) : Set Nat :=
  match cutAt [separator] token with
  | none => {digitsValue token}
  | some (start, last) => {port | digitsValue start ≤ port ∧ port ≤ digitsValue last}

def specPorts (separator : Char) (spec : Text) : Set Nat := {port | ∃ token ∈ split spec ',', port ∈ tokenPorts separator token}

structure PortText (text : Text) : Prop where
  present : text ≠ []
  short : text.length ≤ 5
  digits : text.all Char.isDigit = true
  least : 1 ≤ digitsValue text
  most : digitsValue text ≤ 65535

inductive PortToken : Text → Prop where
  | single {port : Text} (valid : PortText port) : PortToken port
  | range {start last : Text} (valid : PortText start) (valid' : PortText last) (ascends : digitsValue start ≤ digitsValue last) :
    PortToken (start ++ '-' :: last)

variable {text token start last : Text}

theorem toInt_digits (present : text ≠ []) (digits : text.all Char.isDigit = true) : Handler.toInt text 0 = digitsValue text := by
  rw [Handler.toInt, if_neg present, atoi_digits digits]

theorem validSharePort_iff : validSharePort text = true ↔ PortText text := by
  rw [validSharePort]
  split
  next bad =>
    refine ⟨fun valid => absurd valid (by decide), fun valid => ?_⟩
    rcases bad with empty | long | other
    · exact absurd empty valid.present
    · exact absurd valid.short (by omega)
    · exact absurd (other ▸ valid.digits) (by decide)
  next good =>
    simp only [not_or, Bool.not_eq_false] at good
    rw [toInt_digits good.1 good.2.2, Bool.and_eq_true, decide_eq_true_eq, decide_eq_true_eq]
    refine ⟨fun ⟨least, most⟩ => ⟨good.1, by omega, good.2.2, by omega, by omega⟩, fun valid => ?_⟩
    have := valid.least
    have := valid.most
    omega

theorem PortText.not_mem (valid : PortText text) {mark : Char} (other : mark.isDigit = false) : mark ∉ text := by
  intro there
  rw [List.all_eq_true.mp valid.digits mark there] at other
  cases other

theorem PortText.toInt_eq (valid : PortText text) : Handler.toInt text 0 = digitsValue text := toInt_digits valid.present valid.digits

theorem cutAt_range {separator : Char} (other : separator.isDigit = false) (valid : PortText start) (last : Text) :
    cutAt [separator] (start ++ separator :: last) = some (start, last) :=
  cutAt_mark_iff.mpr ⟨rfl, valid.not_mem other⟩

theorem cutAt_single {separator : Char} (other : separator.isDigit = false) (valid : PortText text) :
    cutAt [separator] text = none := cutAt_mark_none_iff.mpr (valid.not_mem other)

theorem validHysteria2PortToken_some {primary : Nat} {remaining : Text}
    (read : validHysteria2PortToken token = some (primary, remaining)) :
    (PortText token ∧ primary = digitsValue token ∧ remaining = []) ∨
      ∃ start last, token = start ++ '-' :: last ∧ PortText start ∧ PortText last ∧ digitsValue start ≤ digitsValue last ∧
        primary = digitsValue start ∧
        remaining = if digitsValue start < digitsValue last then decimal (digitsValue start + 1) ++ '-' :: last else [] := by
  rw [validHysteria2PortToken] at read
  split at read
  next none' =>
    rw [Option.ite_none_right_eq_some, validSharePort_iff] at read
    obtain ⟨valid, same⟩ := read
    obtain ⟨rfl, rfl⟩ := Prod.mk.inj (Option.some_inj.mp same)
    have most := valid.most
    refine .inl ⟨valid, ?_, rfl⟩
    rw [valid.toInt_eq, Int.toNat_natCast, Nat.mod_eq_of_lt (by omega)]
  next start last cut =>
    obtain ⟨whole, -⟩ := cutAt_mark_iff.mp cut
    split at read
    next => cases read
    next =>
      split at read
      next => cases read
      next ports =>
        simp only [Bool.or_eq_true, Bool.not_eq_true', not_or, Bool.not_eq_false, validSharePort_iff] at ports
        obtain ⟨valid, valid'⟩ := ports
        rw [valid.toInt_eq, valid'.toInt_eq] at read
        split at read
        next => cases read
        next ascends =>
          obtain ⟨rfl, rfl⟩ := Prod.mk.inj (Option.some_inj.mp read)
          have most := valid.most
          refine .inr ⟨start, last, whole, valid, valid', by omega, ?_, ?_⟩
          · rw [Int.toNat_natCast, Nat.mod_eq_of_lt (by omega)]
          · simp only [Nat.cast_lt]
            rfl

theorem validHysteria2PortToken_iff : (∃ read, validHysteria2PortToken token = some read) ↔ PortToken token := by
  constructor
  · rintro ⟨⟨primary, remaining⟩, read⟩
    rcases validHysteria2PortToken_some read with ⟨valid, -⟩ | ⟨start, last, rfl, valid, valid', ascends, -⟩
    · exact .single valid
    · exact .range valid valid' ascends
  · intro accepted
    cases accepted with
    | single valid =>
      rw [validHysteria2PortToken, cutAt_single (by decide) valid]
      dsimp only
      rw [if_pos (validSharePort_iff.mpr valid)]
      exact ⟨_, rfl⟩
    | range valid valid' ascends =>
      rw [validHysteria2PortToken, cutAt_range (by decide) valid]
      dsimp only
      rw [if_neg (by simp [valid.present, valid'.present, valid'.not_mem (show '-'.isDigit = false by decide)]),
        if_neg (by simp [validSharePort_iff.mpr valid, validSharePort_iff.mpr valid']), valid.toInt_eq, valid'.toInt_eq,
        if_neg (by omega)]
      exact ⟨_, rfl⟩

theorem remainingPorts_iff {tokens remaining : List Text} :
    remainingPorts tokens = some remaining ↔ remaining = tokens ∧ ∀ token ∈ tokens, PortToken token := by
  induction tokens generalizing remaining with
  | nil =>
    rw [remainingPorts, Option.some_inj]
    simp [eq_comm]
  | cons token rest ih =>
    simp only [remainingPorts, Option.bind_eq_bind, Option.bind_eq_some_iff, Option.pure_def, Option.some_inj, ih,
      List.mem_cons, forall_eq_or_imp, ← validHysteria2PortToken_iff]
    constructor
    · rintro ⟨read, first, others, ⟨rfl, later⟩, rfl⟩
      exact ⟨rfl, ⟨read, first⟩, later⟩
    · rintro ⟨rfl, ⟨read, first⟩, later⟩
      exact ⟨read, first, rest, ⟨rfl, later⟩, rfl⟩

theorem digitsValue_decimal (n : Nat) : digitsValue (decimal n) = n := by
  have same : ∀ (digits : Text) (value : Nat),
      digits.foldl (fun value c => value * 10 + (c.toNat - 48)) value = Nat.ofDigitChars 10 digits value := by
    intro digits
    induction digits with
    | nil => exact fun value => (Nat.ofDigitChars_nil ..).symm
    | cons c rest ih =>
      intro value
      rw [List.foldl_cons, ih, Nat.ofDigitChars_cons, Nat.mul_comm]
      rfl
  rw [digitsValue, same, decimal, Nat.ofDigitChars_ten_toDigits]

theorem portText_decimal {n : Nat} (least : 1 ≤ n) (most : n ≤ 65535) : PortText (decimal n) where
  present := Nat.toDigits_ne_nil
  short := (Nat.length_toDigits_le_iff (by decide) (by decide)).mpr (by omega)
  digits := List.all_eq_true.mpr fun _ there => Nat.isDigit_of_mem_toDigits (by decide) (by decide) there
  least := by rwa [digitsValue_decimal]
  most := by rwa [digitsValue_decimal]

theorem PortToken.not_mem (token' : PortToken token) {mark : Char} (other : mark.isDigit = false) (dash : mark ≠ '-') :
    mark ∉ token := by
  cases token' with
  | single valid => exact valid.not_mem other
  | range valid valid' => simp [valid.not_mem other, valid'.not_mem other, dash]

theorem PortToken.ne_nil (token' : PortToken token) : token ≠ [] := by
  cases token' with
  | single valid => exact valid.present
  | range => simp

theorem tokenPorts_single {separator : Char} (other : separator.isDigit = false) (valid : PortText text) :
    tokenPorts separator text = {digitsValue text} := by
  rw [tokenPorts, cutAt_single other valid]

theorem tokenPorts_range {separator : Char} (other : separator.isDigit = false) (valid : PortText start) (last : Text) :
    tokenPorts separator (start ++ separator :: last) = {port | digitsValue start ≤ port ∧ port ≤ digitsValue last} := by
  rw [tokenPorts, cutAt_range other valid]

end Meaning

section Lists

variable {parts : List Text} {spec additional token : Text} {primary : Nat}

theorem split_single {part : Text} (present : part ≠ []) (plain : ',' ∉ part) : split part ',' = [part] := by
  rw [split, List.splitOn_eq_singleton plain]
  simp [present]

theorem split_join (plain : ∀ part ∈ parts, part ≠ [] ∧ ',' ∉ part) : split ([','].intercalate parts) ',' = parts := by
  induction parts with
  | nil => rfl
  | cons part rest ih =>
    simp only [List.mem_cons, forall_eq_or_imp] at plain
    cases rest with
    | nil =>
      rw [List.intercalate_singleton]
      exact split_single plain.1.1 plain.1.2
    | cons next more =>
      rw [List.intercalate_cons_of_ne_nil (by simp), List.append_assoc, List.singleton_append, split_append_cons plain.1.2,
        ih plain.2]

structure AcceptedPorts (spec : Text) (primary : Nat) (remaining : List Text) : Prop where
  least : 1 ≤ primary
  most : primary ≤ 65535
  tokens : ∀ token ∈ remaining, PortToken token
  ports : specPorts '-' spec = {primary} ∪ {port | ∃ token ∈ remaining, port ∈ tokenPorts '-' token}

theorem acceptedPorts_of_parse (parsed : parseHysteria2Ports spec = some (primary, additional)) :
    ∃ remaining, AcceptedPorts spec primary remaining ∧ additional = [','].intercalate remaining := by
  rw [parseHysteria2Ports] at parsed
  split at parsed
  next => cases parsed
  next first others tokens =>
    simp only [Option.bind_eq_bind, Option.bind_eq_some_iff, Option.pure_def, Option.some_inj, Prod.mk.injEq, Prod.exists,
      remainingPorts_iff] at parsed
    obtain ⟨firstPort, firstRemaining, read, rest, ⟨rfl, later⟩, rfl, rfl⟩ := parsed
    refine ⟨_, ?_, rfl⟩
    have ports : specPorts '-' spec = {port | port ∈ tokenPorts '-' first ∨ ∃ token ∈ rest, port ∈ tokenPorts '-' token} := by
      ext port
      simp [specPorts, tokens]
    rcases validHysteria2PortToken_some read with ⟨valid, rfl, rfl⟩ | ⟨start, last, rfl, valid, valid', ascends, rfl, rfl⟩
    · refine ⟨valid.least, valid.most, by simpa using later, ?_⟩
      rw [ports, tokenPorts_single (by decide) valid]
      rfl
    · rw [tokenPorts_range (by decide) valid] at ports
      by_cases longer : digitsValue start < digitsValue last
      · have least := valid.least
        have most := valid'.most
        have next := portText_decimal (n := digitsValue start + 1) (by omega) (by omega)
        have behind := PortToken.range next valid' (by rw [digitsValue_decimal]; omega)
        rw [if_pos longer, if_pos behind.ne_nil]
        refine ⟨least, valid.most, fun token there => ?_, ?_⟩
        · rcases List.mem_cons.mp there with rfl | there
          · exact behind
          · exact later token there
        · ext port
          simp only [ports, List.mem_cons, exists_eq_or_imp, tokenPorts_range (show '-'.isDigit = false by decide) next,
            digitsValue_decimal, Set.mem_union, Set.mem_ofPred_eq, Set.mem_singleton_iff, ← or_assoc]
          refine or_congr_left ?_
          omega
      · rw [if_neg longer]
        refine ⟨valid.least, valid.most, by simpa using later, ?_⟩
        ext port
        simp only [ports, ne_eq, not_true_eq_false, if_false, Set.mem_union, Set.mem_ofPred_eq, Set.mem_singleton_iff]
        refine or_congr_left ?_
        omega

def nodeOf (primary : Nat) (additional : Text) : Hysteria2Ports := ⟨primary, additional, additional ≠ []⟩

variable {remaining : List Text}

theorem AcceptedPorts.plain (accepted : AcceptedPorts spec primary remaining) : ∀ token ∈ remaining, token ≠ [] ∧ ',' ∉ token :=
  fun token there => ⟨(accepted.tokens token there).ne_nil, (accepted.tokens token there).not_mem (by decide) (by decide)⟩

theorem AcceptedPorts.split_additional (accepted : AcceptedPorts spec primary remaining) :
    split ([','].intercalate remaining) ',' = remaining := split_join accepted.plain

theorem AcceptedPorts.portText (accepted : AcceptedPorts spec primary remaining) : PortText (decimal primary) :=
  portText_decimal accepted.least accepted.most

theorem AcceptedPorts.split_spec (accepted : AcceptedPorts spec primary remaining) :
    split (hysteria2PortSpec (nodeOf primary ([','].intercalate remaining))) ',' = decimal primary :: remaining := by
  have plain := accepted.portText.not_mem (show ','.isDigit = false by decide)
  rw [hysteria2PortSpec, nodeOf]
  by_cases empty : [','].intercalate remaining = []
  · have none' : remaining = [] := by rw [← accepted.split_additional, empty]; rfl
    rw [if_pos empty, none', split_single accepted.portText.present plain]
  · rw [if_neg empty, if_pos (by simpa using empty), split_append_cons plain, accepted.split_additional]

theorem AcceptedPorts.additionalPorts (accepted : AcceptedPorts spec primary remaining) :
    specPorts '-' ([','].intercalate remaining) = {port | ∃ token ∈ remaining, port ∈ tokenPorts '-' token} := by
  rw [specPorts, accepted.split_additional]

theorem AcceptedPorts.nodeSpec (accepted : AcceptedPorts spec primary remaining) :
    specPorts '-' (hysteria2PortSpec (nodeOf primary ([','].intercalate remaining))) = specPorts '-' spec := by
  ext port
  simp only [specPorts, accepted.split_spec, List.mem_cons, exists_eq_or_imp, tokenPorts_single (show '-'.isDigit = false by decide)
    accepted.portText, digitsValue_decimal, Set.mem_ofPred_eq, Set.mem_singleton_iff]
  have ports := Set.ext_iff.mp accepted.ports port
  simp only [specPorts, Set.mem_union, Set.mem_ofPred_eq, Set.mem_singleton_iff] at ports
  exact ports.symm

theorem AcceptedPorts.again (accepted : AcceptedPorts spec primary remaining) :
    parseHysteria2Ports (hysteria2PortSpec (nodeOf primary ([','].intercalate remaining))) =
      some (primary, [','].intercalate remaining) := by
  have valid := accepted.portText
  have most := accepted.most
  have first : validHysteria2PortToken (decimal primary) = some (primary, []) := by
    rw [validHysteria2PortToken, cutAt_single (by decide) valid]
    dsimp only
    rw [if_pos (validSharePort_iff.mpr valid), valid.toInt_eq, digitsValue_decimal, Int.toNat_natCast,
      Nat.mod_eq_of_lt (by omega)]
  rw [parseHysteria2Ports, accepted.split_spec]
  simp only [first, remainingPorts_iff.mpr ⟨rfl, accepted.tokens⟩]
  rfl

end Lists

section SingBox

variable {spec token : Text} {primary : Nat} {remaining : List Text}

structure ColonRange (token range : Text) : Prop where
  form : ∃ start last, range = start ++ ':' :: last ∧ PortText start ∧ PortText last
  ports : tokenPorts ':' range = tokenPorts '-' token

theorem colonRange_of_token (token' : PortToken token) : ColonRange token (singBoxRange token) := by
  rw [singBoxRange, trim_of_no_blank (token'.not_mem (by decide) (by decide))]
  cases token' with
  | single valid =>
    rw [cutAt_single (by decide) valid]
    refine ⟨⟨token, token, rfl, valid, valid⟩, ?_⟩
    dsimp only
    rw [tokenPorts_range (by decide) valid, tokenPorts_single (by decide) valid]
    ext port
    simp only [Set.mem_ofPred_eq, Set.mem_singleton_iff]
    omega
  | range valid valid' =>
    rw [cutAt_range (by decide) valid]
    refine ⟨⟨_, _, rfl, valid, valid'⟩, ?_⟩
    dsimp only
    rw [tokenPorts_range (by decide) valid, tokenPorts_range (by decide) valid]

theorem ColonRange.plain {range : Text} (colon : ColonRange token range) : range ≠ [] ∧ ',' ∉ range := by
  obtain ⟨start, last, rfl, valid, valid'⟩ := colon.form
  exact ⟨by simp, by simp [valid.not_mem (show ','.isDigit = false by decide), valid'.not_mem (show ','.isDigit = false by decide)]⟩

theorem AcceptedPorts.singBox (accepted : AcceptedPorts spec primary remaining) :
    let ranges := singBoxHysteria2PortSpec (nodeOf primary ([','].intercalate remaining))
    specPorts ':' ranges = specPorts '-' spec ∧
      ∀ range ∈ split ranges ',', ∃ start last, range = start ++ ':' :: last ∧ PortText start ∧ PortText last := by
  have tokens : ∀ token ∈ decimal primary :: remaining, PortToken token := by
    simpa using ⟨PortToken.single accepted.portText, accepted.tokens⟩
  have parts : split (singBoxHysteria2PortSpec (nodeOf primary ([','].intercalate remaining))) ',' =
      (decimal primary :: remaining).map singBoxRange := by
    rw [singBoxHysteria2PortSpec, accepted.split_spec]
    refine split_join fun range there => ?_
    obtain ⟨token, inside, rfl⟩ := List.mem_map.mp there
    exact (colonRange_of_token (tokens token inside)).plain
  constructor
  · rw [← accepted.nodeSpec]
    ext port
    simp only [specPorts, parts, accepted.split_spec, List.mem_map, exists_exists_and_eq_and, Set.mem_ofPred_eq]
    refine exists_congr fun token => and_congr_right fun inside => ?_
    rw [(colonRange_of_token (tokens token inside)).ports]
  · intro range there
    rw [parts] at there
    obtain ⟨token, inside, rfl⟩ := List.mem_map.mp there
    exact (colonRange_of_token (tokens token inside)).form

theorem hysteria2_ports_kept (uri scheme : Text) (requireUser : Bool) (defaultPort : Text) (parsed : ParsedShareUri)
    (additional : Text) (accepted : parseModernShareUri uri scheme requireUser defaultPort true = some (parsed, additional)) :
    ∃ head spec primary, parseModernShareHead uri scheme requireUser defaultPort = some (head, spec) ∧
      parsed = { head with port := decimal primary } ∧
      specPorts '-' spec = {primary} ∪ specPorts '-' additional ∧
      specPorts '-' (hysteria2PortSpec (nodeOf primary additional)) = specPorts '-' spec ∧
      (∀ again other, parseModernShareHead again scheme requireUser defaultPort =
        some (other, hysteria2PortSpec (nodeOf primary additional)) →
          parseModernShareUri again scheme requireUser defaultPort true =
            some ({ other with port := decimal primary }, additional)) ∧
      specPorts ':' (singBoxHysteria2PortSpec (nodeOf primary additional)) = specPorts '-' spec ∧
      ∀ range ∈ split (singBoxHysteria2PortSpec (nodeOf primary additional)) ',', ∃ start last,
        range = start ++ ':' :: last ∧ PortText start ∧ PortText last := by
  simp only [parseModernShareUri, Bool.not_true, Bool.false_eq_true, if_false, Option.bind_eq_bind, Option.bind_eq_some_iff,
    Option.pure_def, Option.some_inj, Prod.exists, Prod.mk.injEq] at accepted
  obtain ⟨head, spec, read, primary, ports, parsedPorts, rfl, rfl⟩ := accepted
  obtain ⟨remaining, accepted, rfl⟩ := acceptedPorts_of_parse parsedPorts
  obtain ⟨same, form⟩ := accepted.singBox
  refine ⟨head, spec, primary, read, rfl, ?_, accepted.nodeSpec, fun again other here => ?_, same, form⟩
  · rw [accepted.additionalPorts, accepted.ports]
  · simp only [parseModernShareUri, here, accepted.again, Option.bind_eq_bind, Option.bind_some, Bool.not_true,
      Bool.false_eq_true, if_false, Option.pure_def]

theorem hysteria2_ports_kept_range :
    ∃ head spec primary, parseModernShareHead (chars "hysteria2://host:443-445") (chars "hysteria2") false (chars "443") =
      some (head, spec) ∧
      ({ host := chars "host", port := chars "443" } : ParsedShareUri) = { head with port := decimal primary } ∧
      specPorts '-' spec = {primary} ∪ specPorts '-' (chars "444-445") := by
  obtain ⟨head, spec, primary, read, same, ports, -⟩ := hysteria2_ports_kept (chars "hysteria2://host:443-445") (chars "hysteria2")
    false (chars "443") { host := chars "host", port := chars "443" } (chars "444-445") (by decide)
  exact ⟨head, spec, primary, read, same, ports⟩

end SingBox

end SubConverter.Generator
