import SubConverter.Generator.ClashRules

set_option autoImplicit false

namespace SubConverter.Generator

open Handler (trimWhitespace split toUpper)

section Common

-- Nothing where the code reads the first part of a text that has none.
def transformRuleToCommon (input group : Text) (noResolveOnly : Bool) : Option Text :=
  match split input ',' with
  | [] => none
  | [type] => some (type ++ ',' :: group)
  | type :: payload :: rest =>
    let strLine := type ++ ',' :: payload ++ ',' :: group
    match rest with
    | [] => some strLine
    | option :: _ => if !noResolveOnly ∨ option = chars "no-resolve" then some (strLine ++ ',' :: option) else some strLine

end Common

section Fields

structure RuleFields where
  type : Text
  payload : Text
  options : List Text := []
deriving DecidableEq, Repr

def joined (options : List Text) : Text := options.flatMap fun option => ',' :: option

def RuleFields.withTarget (fields : RuleFields) (target : Text) : Text :=
  fields.type ++ ',' :: fields.payload ++ ',' :: target ++ joined fields.options

def commaFields (line : Text) : Option RuleFields :=
  match split line ',' with
  | type :: payload :: options => some ⟨type, payload, options⟩
  | _ => none

def lineType (line : Text) : Text := toUpper (trimWhitespace (line.takeWhile (· ≠ ',')))

def ruleFields (rule : Text) : Option RuleFields :=
  let line := trimWhitespace rule
  if isClashCommaPayloadRule (lineType line) then
    (cutAt [','] line).map fun parts => ⟨parts.1, parts.2, []⟩
  else (commaFields line).map fun fields => { fields with options := fields.options.map trimWhitespace }

-- The code writes one option behind the target; the others of the line are lost.
def RuleFields.firstOption (fields : RuleFields) : RuleFields := { fields with options := fields.options.take 1 }

def keepsOption (noResolveOnly : Bool) (option : Text) : Bool := !noResolveOnly || option = chars "no-resolve"

def terminalType (type : Text) : Bool := type = chars "FINAL" || type = chars "MATCH"

end Fields

section Targets

variable {rule line target : Text} {fields : RuleFields} {noResolveOnly : Bool}

theorem comma_of_commaFields (read : commaFields line = some fields) : ',' ∈ line := by
  by_contra absent
  have whole : line.splitOn ',' = [line] := List.splitOn_eq_singleton absent
  simp only [commaFields, split, whole] at read
  split at read
  next none =>
    split at none <;> simp at none
  next => cases read

theorem split_append_cons {field : Text} (plain : ',' ∉ field) (rest : Text) : split (field ++ ',' :: rest) ',' = field :: split rest ',' := by
  have more := List.splitOn_ne_nil ',' rest
  simp only [split, List.splitOn_append_cons_self, List.splitOn_eq_singleton plain, List.singleton_append]
  rw [List.getLast?_cons_of_ne_nil more, List.dropLast_cons_of_ne_nil more]
  split <;> rfl

def RuleFields.keeping (fields : RuleFields) (noResolveOnly : Bool) : RuleFields :=
  { fields with options := fields.options.filter (keepsOption noResolveOnly) }

theorem written_option (written : Text) (options : List Text) :
    (match options with
      | [] => written
      | option :: _ => if !noResolveOnly ∨ option = chars "no-resolve" then written ++ ',' :: option else written) =
      written ++ joined ((options.take 1).filter (keepsOption noResolveOnly)) := by
  cases options with
  | nil => simp [joined]
  | cons option rest =>
    simp only [List.take_succ_cons, List.take_zero, List.filter_cons, List.filter_nil, keepsOption, Bool.or_eq_true, decide_eq_true_eq]
    split <;> simp [joined]

theorem transformRuleToCommon_fields (read : commaFields line = some fields) :
    transformRuleToCommon line target noResolveOnly = some ((fields.firstOption.keeping noResolveOnly).withTarget target) := by
  unfold commaFields at read
  split at read
  next type payload options cut =>
    cases read
    have written := @written_option noResolveOnly (type ++ ',' :: payload ++ ',' :: target) options
    rw [transformRuleToCommon, cut, RuleFields.withTarget, RuleFields.keeping, RuleFields.firstOption, ← written]
    cases options with
    | nil => rfl
    | cons option rest =>
      dsimp only
      split <;> rfl
  next => cases read

theorem appendClashRuleTarget_terminal (terminal : terminalType (lineType (trimWhitespace rule))) :
    appendClashRuleTarget rule target noResolveOnly = chars "MATCH," ++ target := by
  have last : lineType (trimWhitespace rule) = chars "FINAL" ∨ lineType (trimWhitespace rule) = chars "MATCH" := by
    simpa [terminalType] using terminal
  rw [lineType] at last
  simp only [appendClashRuleTarget, if_pos last]

theorem appendClashRuleTarget_plain {type payload : Text} {options : List Text}
    (terminal : ¬terminalType (lineType (trimWhitespace rule)))
    (plain : ¬isClashCommaPayloadRule (lineType (trimWhitespace rule)))
    (parts : split (trimWhitespace rule) ',' = type :: payload :: options) :
    appendClashRuleTarget rule target noResolveOnly = type ++ ',' :: payload ++ ',' :: target ++
      joined (((options.map trimWhitespace).take 1).filter (keepsOption noResolveOnly)) := by
  have comma : ',' ∈ trimWhitespace rule := comma_of_commaFields (by rw [commaFields, parts])
  have other : ¬(lineType (trimWhitespace rule) = chars "FINAL" ∨ lineType (trimWhitespace rule) = chars "MATCH") := by
    simpa [terminalType] using terminal
  have bare : ¬(',' ∉ trimWhitespace rule ∨ isClashCommaPayloadRule (lineType (trimWhitespace rule)) = true) := by
    simp [comma, plain]
  have written := @written_option noResolveOnly (type ++ ',' :: payload ++ ',' :: target) (options.map trimWhitespace)
  rw [lineType] at other bare
  simp only [appendClashRuleTarget, if_neg other, if_neg bare, parts]
  rw [← written]
  cases options <;> rfl

theorem appendClashRuleTarget_commaPayload (terminal : ¬terminalType (lineType (trimWhitespace rule)))
    (nested : isClashCommaPayloadRule (lineType (trimWhitespace rule))) :
    appendClashRuleTarget rule target noResolveOnly = trimWhitespace rule ++ ',' :: target := by
  have other : ¬(lineType (trimWhitespace rule) = chars "FINAL" ∨ lineType (trimWhitespace rule) = chars "MATCH") := by
    simpa [terminalType] using terminal
  rw [lineType] at other nested
  simp only [appendClashRuleTarget, if_neg other, nested, or_true, if_true]

theorem appendClashRuleTarget_fields (payload : ¬terminalType (lineType (trimWhitespace rule))) (read : ruleFields rule = some fields) :
    appendClashRuleTarget rule target noResolveOnly = (fields.firstOption.keeping noResolveOnly).withTarget target := by
  simp only [ruleFields] at read
  split at read
  next nested =>
    rw [Option.map_eq_some_iff] at read
    obtain ⟨parts, cut, rfl⟩ := read
    have same : trimWhitespace rule = parts.1 ++ ',' :: parts.2 := by simpa using eq_of_cutAt cut
    rw [appendClashRuleTarget_commaPayload payload nested, same]
    simp [RuleFields.withTarget, RuleFields.keeping, RuleFields.firstOption, joined]
  next plain =>
    rw [Option.map_eq_some_iff] at read
    obtain ⟨raw, cut, rfl⟩ := read
    unfold commaFields at cut
    split at cut
    next type payload options parts =>
      cases cut
      exact appendClashRuleTarget_plain ‹_› plain parts
    next => cases cut

theorem rule_targets (rule target : Text) (noResolveOnly : Bool) :
    (terminalType (lineType (trimWhitespace rule)) →
      appendClashRuleTarget rule target noResolveOnly = chars "MATCH," ++ target) ∧
    (¬terminalType (lineType (trimWhitespace rule)) → ∀ fields, ruleFields rule = some fields →
      appendClashRuleTarget rule target noResolveOnly = (fields.firstOption.keeping noResolveOnly).withTarget target) ∧
    ∀ fields, commaFields rule = some fields →
      transformRuleToCommon rule target noResolveOnly = some ((fields.firstOption.keeping noResolveOnly).withTarget target) :=
  ⟨appendClashRuleTarget_terminal, fun payload _ read => appendClashRuleTarget_fields payload read,
    fun _ read => transformRuleToCommon_fields read⟩

theorem rule_targets_no_resolve :
    appendClashRuleTarget (chars "IP-CIDR,10.0.0.0/8, no-resolve,src") (chars "LAN") false =
      RuleFields.withTarget ⟨chars "IP-CIDR", chars "10.0.0.0/8", [chars "no-resolve"]⟩ (chars "LAN") :=
  (rule_targets (chars "IP-CIDR,10.0.0.0/8, no-resolve,src") (chars "LAN") false).2.1 (by decide)
    ⟨chars "IP-CIDR", chars "10.0.0.0/8", [chars "no-resolve", chars "src"]⟩ (by decide)

theorem rule_targets_drop :
    (appendClashRuleTarget (chars "FINAL,10.0.0.0/8") (chars "LAN") false ≠
        RuleFields.withTarget ⟨chars "FINAL", chars "10.0.0.0/8", []⟩ (chars "LAN")) ∧
      (transformRuleToCommon (chars "IP-CIDR,10.0.0.0/8,src") (chars "LAN") true ≠
        some (RuleFields.withTarget ⟨chars "IP-CIDR", chars "10.0.0.0/8", [chars "src"]⟩ (chars "LAN"))) ∧
      ¬∀ (rule target : Text) (fields : RuleFields), ruleFields rule = some fields → fields.type ∈ clashRuleTypes →
        appendClashRuleTarget rule target false = fields.withTarget target := by
  refine ⟨by decide, by decide, ?_⟩
  intro keeps
  have kept := keeps (chars "IP-CIDR,10.0.0.0/8,no-resolve,src") (chars "LAN")
    ⟨chars "IP-CIDR", chars "10.0.0.0/8", [chars "no-resolve", chars "src"]⟩ (by decide) (by decide)
  exact absurd kept (by decide)

end Targets

end SubConverter.Generator
