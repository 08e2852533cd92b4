import SubConverter.Generator.ClashRules
import SubConverter.Generator.StashBase

set_option autoImplicit false

namespace SubConverter.Generator

open Handler (trimWhitespace startsWith split getLineBreak dropPrefix? mem_splitOn_of_mem_split)

section Emitting

structure RulesetContent where
  ruleGroup : Text
  ruleType : RulesetType := .surge
  ruleContent : Text
  options : RulesetOptions := {}
deriving DecidableEq, Repr

variable {σ : Type} (regexes : Regexes) (maxAllowedRules : Nat) (write : σ → Text → σ)

structure Emission (σ : Type) where
  output : σ
  totalRules : Nat

def Emission.full (emission : Emission σ) : Bool := maxAllowedRules ≠ 0 && maxAllowedRules < emission.totalRules

def Emission.add (emission : Emission σ) (rule : Text) : Emission σ :=
  { output := write emission.output rule, totalRules := emission.totalRules + 1 }

def isClashRule (line : Text) : Bool :=
  let line := trimWhitespace line
  line ≠ [] && !isRuleComment line && clashRuleTypes.any fun type => startsWith line type

def clashRule (content : RulesetContent) (line : Text) : Text :=
  let line := stripRulesetComment (trimWhitespace line) false
  appendClashIpCidrNoResolve (appendClashRuleTarget line content.ruleGroup false) content.ruleType content.options

def convertedLines (content : RulesetContent) : List Text :=
  let converted := convertRuleset regexes content.ruleContent content.ruleType
  split converted (getLineBreak converted)

def emitLines (content : RulesetContent) : List Text → Emission σ → Emission σ
  | [], emission => emission
  | line :: rest, emission =>
    if emission.full maxAllowedRules then emission
    else if isClashRule line then emitLines content rest (emission.add write (clashRule content line))
    else emitLines content rest emission

def emitContents : List RulesetContent → Emission σ → Emission σ
  | [], emission => emission
  | content :: rest, emission =>
    if emission.full maxAllowedRules then emission
    else if content.ruleContent = [] then emitContents rest emission
    else if startsWith content.ruleContent ['[', ']'] then
      emitContents rest (emission.add write (appendClashRuleTarget (content.ruleContent.drop 2) content.ruleGroup false))
    else emitContents rest (emitLines maxAllowedRules write content (convertedLines regexes content) emission)

end Emitting

section Emitters

inductive YamlError where
  | badPushback
  | badConversion
deriving DecidableEq, Repr

def definedField (entries : Entries) (key : Text) : Option YamlNode :=
  (entries.find? fun entry => entry.1.text? = some key).map Prod.snd

def removeField (entries : Entries) (key : Text) : Entries := entries.eraseP fun entry => entry.1.text? = some key

def YamlNode.pushBack : YamlNode → YamlNode → Except YamlError YamlNode
  | .null, item => .ok (.sequence [item])
  | .sequence items, item => .ok (.sequence (items ++ [item]))
  | .scalar _, _ | .map _, _ => .error .badPushback

def safeAs : Option YamlNode → Except YamlError Text
  | none | some .null => .ok []
  | some (.scalar text) => .ok text
  | some (.sequence _) | some (.map _) => .error .badConversion

def YamlNode.size : YamlNode → Nat
  | .null | .scalar _ => 0
  | .sequence items => items.length
  | .map entries => entries.length

-- A key of a map is read as a number by the library.
def YamlNode.at? (keyNumber : YamlNode → Option Nat) (index : Nat) : YamlNode → Option YamlNode
  | .null | .scalar _ => none
  | .sequence items => items[index]?
  | .map entries => (entries.find? fun entry => keyNumber entry.1 = some index).map Prod.snd

def fieldName (newFieldName : Bool) : Text := if newFieldName then chars "rules" else chars "Rule"

variable (regexes : Regexes) (maxAllowedRules : Nat) (keyNumber : YamlNode → Option Nat)

def rulesetToClash (baseRule : Entries) (contents : List RulesetContent) (overwriteOriginalRules newFieldName : Bool) :
    Except YamlError Entries := do
  let original := if overwriteOriginalRules then none else definedField baseRule (fieldName newFieldName)
  let allRules := (emitContents regexes maxAllowedRules (fun rules rule => rules ++ [rule]) contents ⟨[], 0⟩).output
  let rules ← allRules.foldlM (fun rules rule => rules.pushBack (.scalar rule)) (original.getD .null)
  return setField (fieldName newFieldName) rules baseRule

def writeRule (output rule : Text) : Text := output ++ chars "  - " ++ rule ++ ['\n']

def rulesetToClashStr (baseRule : Entries) (contents : List RulesetContent) (overwriteOriginalRules newFieldName : Bool) :
    Except YamlError (Text × Entries) := do
  let header := '\n' :: fieldName newFieldName ++ [':', '\n']
  let original := if overwriteOriginalRules then none else definedField baseRule (fieldName newFieldName)
  let carried ← (List.range (original.elim 0 YamlNode.size)).foldlM (fun output i => do
    let rule ← safeAs (original.bind (YamlNode.at? keyNumber i))
    return writeRule output rule) header
  let written := (emitContents regexes maxAllowedRules writeRule contents ⟨carried, 0⟩).output
  return (written, removeField baseRule (fieldName newFieldName))

def YamlNode.rules? : YamlNode → Option (List Text)
  | .null => some []
  | .sequence items => items.mapM fun item => (safeAs (some item)).toOption
  | .scalar _ | .map _ => none

def rulesOfText? (newFieldName : Bool) (output : Text) : Option (List Text) :=
  (dropPrefix? ('\n' :: fieldName newFieldName ++ [':', '\n']) output).bind fun body =>
    (split body '\n').mapM (dropPrefix? (chars "  - "))

def nodeRules (baseRule : Entries) (contents : List RulesetContent) (overwriteOriginalRules newFieldName : Bool) :
    Option (List Text) :=
  match rulesetToClash regexes maxAllowedRules baseRule contents overwriteOriginalRules newFieldName with
  | .error _ => none
  | .ok entries => (definedField entries (fieldName newFieldName)).bind YamlNode.rules?

def textRules (baseRule : Entries) (contents : List RulesetContent) (overwriteOriginalRules newFieldName : Bool) :
    Option (List Text) :=
  match rulesetToClashStr regexes maxAllowedRules keyNumber baseRule contents overwriteOriginalRules newFieldName with
  | .error _ => none
  | .ok (output, _) => rulesOfText? newFieldName output

end Emitters

section Generated

variable {σ : Type} {regexes : Regexes} {maxAllowedRules : Nat} {write : σ → Text → σ}

def rulesOf (regexes : Regexes) (content : RulesetContent) : List Text :=
  if content.ruleContent = [] then []
  else if startsWith content.ruleContent ['[', ']'] then
    [appendClashRuleTarget (content.ruleContent.drop 2) content.ruleGroup false]
  else ((convertedLines regexes content).filter isClashRule).map (clashRule content)

def allowed (maxAllowedRules total : Nat) (rules : List Text) : List Text :=
  if maxAllowedRules = 0 then rules else rules.take (maxAllowedRules + 1 - total)

def Emission.addAll (write : σ → Text → σ) (emission : Emission σ) (rules : List Text) : Emission σ :=
  { output := rules.foldl write emission.output, totalRules := emission.totalRules + rules.length }

theorem allowed_of_full {emission : Emission σ} (full : emission.full maxAllowedRules = true) (rules : List Text) :
    allowed maxAllowedRules emission.totalRules rules = [] := by
  simp only [Emission.full, Bool.and_eq_true, decide_eq_true_eq] at full
  have none : maxAllowedRules + 1 - emission.totalRules = 0 := by omega
  simp [allowed, full.1, none]

theorem allowed_cons {emission : Emission σ} (room : ¬emission.full maxAllowedRules = true) (rule : Text) (rules : List Text) :
    allowed maxAllowedRules emission.totalRules (rule :: rules) =
      rule :: allowed maxAllowedRules (emission.totalRules + 1) rules := by
  by_cases unlimited : maxAllowedRules = 0
  · simp [allowed, unlimited]
  · simp only [Emission.full, Bool.and_eq_true, decide_eq_true_eq, not_and, Nat.not_lt] at room
    have more : maxAllowedRules + 1 - emission.totalRules = maxAllowedRules + 1 - (emission.totalRules + 1) + 1 := by
      have := room unlimited
      omega
    simp only [allowed, unlimited, if_false]
    rw [more, List.take_succ_cons]

theorem allowed_append (total : Nat) (first second : List Text) :
    allowed maxAllowedRules total (first ++ second) =
      allowed maxAllowedRules total first ++ allowed maxAllowedRules (total + first.length) second := by
  by_cases unlimited : maxAllowedRules = 0
  · simp [allowed, unlimited]
  · simp [allowed, unlimited, List.take_append, Nat.sub_sub]

theorem allowed_behind (total : Nat) (first second : List Text) :
    allowed maxAllowedRules (total + (allowed maxAllowedRules total first).length) second =
      allowed maxAllowedRules (total + first.length) second := by
  by_cases unlimited : maxAllowedRules = 0
  · simp [allowed, unlimited]
  · simp only [allowed, unlimited, if_false, List.length_take]
    congr 1
    omega

theorem Emission.addAll_append (emission : Emission σ) (first second : List Text) :
    (emission.addAll write first).addAll write second = emission.addAll write (first ++ second) := by
  simp [addAll, Nat.add_assoc]

theorem emitLines_eq (content : RulesetContent) (lines : List Text) (emission : Emission σ) :
    emitLines maxAllowedRules write content lines emission =
      emission.addAll write
        (allowed maxAllowedRules emission.totalRules ((lines.filter isClashRule).map (clashRule content))) := by
  induction lines generalizing emission with
  | nil => simp [emitLines, Emission.addAll, allowed]
  | cons line rest ih =>
    unfold emitLines
    by_cases full : emission.full maxAllowedRules = true
    · rw [if_pos full, allowed_of_full full]
      simp [Emission.addAll]
    · rw [if_neg full]
      by_cases rule : isClashRule line = true
      · rw [if_pos rule, ih, List.filter_cons_of_pos rule, List.map_cons, allowed_cons full]
        simp [Emission.addAll, Emission.add, Nat.add_assoc, Nat.add_comm]
      · rw [if_neg rule, ih, List.filter_cons_of_neg rule]

theorem emitContents_eq (contents : List RulesetContent) (emission : Emission σ) :
    emitContents regexes maxAllowedRules write contents emission =
      emission.addAll write (allowed maxAllowedRules emission.totalRules (contents.flatMap (rulesOf regexes))) := by
  induction contents generalizing emission with
  | nil => simp [emitContents, Emission.addAll, allowed]
  | cons content rest ih =>
    unfold emitContents
    by_cases full : emission.full maxAllowedRules = true
    · rw [if_pos full, allowed_of_full full]
      simp [Emission.addAll]
    · rw [if_neg full, List.flatMap_cons, rulesOf]
      split_ifs with empty inline
      next => rw [ih, List.nil_append]
      next =>
        rw [ih, List.singleton_append, allowed_cons full]
        simp [Emission.addAll, Emission.add, Nat.add_assoc, Nat.add_comm]
      next =>
        rw [ih, emitLines_eq, allowed_append, ← allowed_behind, ← Emission.addAll_append]
        rfl

end Generated

section Printed

variable {rules texts : List Text} {newFieldName : Bool}

def header (newFieldName : Bool) : Text := '\n' :: fieldName newFieldName ++ [':', '\n']

def printed (rules : List Text) : Text := marked '\n' (rules.map fun rule => chars "  - " ++ rule)

theorem foldl_writeRule (output : Text) (rules : List Text) : rules.foldl writeRule output = output ++ printed rules := by
  induction rules generalizing output with
  | nil => simp [printed, marked]
  | cons rule rest ih =>
    rw [List.foldl_cons, ih]
    simp [printed, writeRule]

theorem printed_append (first second : List Text) : printed (first ++ second) = printed first ++ printed second := by
  induction first with
  | nil => simp [printed, marked]
  | cons rule rest ih =>
    simp only [printed, List.cons_append, List.map_cons, marked_cons] at ih ⊢
    rw [ih]
    simp

theorem split_marked {parts : List Text} (unbroken : ∀ part ∈ parts, '\n' ∉ part) : split (marked '\n' parts) '\n' = parts := by
  have cut : (marked '\n' parts).splitOn '\n' = parts ++ [[]] := by
    induction parts with
    | nil => rfl
    | cons part rest ih =>
      obtain ⟨here, others⟩ := List.forall_mem_cons.mp unbroken
      rw [marked_cons, List.splitOn_append_cons_self, ih others, List.splitOn_eq_singleton here]
      rfl
  simp [split, cut]

theorem dropPrefix?_append (mark text : Text) : dropPrefix? mark (mark ++ text) = some text := by
  simp [dropPrefix?, startsWith]

theorem rulesOfText?_printed (unbroken : ∀ rule ∈ rules, '\n' ∉ rule) :
    rulesOfText? newFieldName (header newFieldName ++ printed rules) = some rules := by
  have lines : ∀ line ∈ rules.map fun rule => chars "  - " ++ rule, '\n' ∉ line := by
    intro line member
    obtain ⟨rule, there, rfl⟩ := List.mem_map.mp member
    simpa using ⟨by decide, unbroken rule there⟩
  rw [rulesOfText?, ← header, dropPrefix?_append, Option.bind_some, printed, split_marked lines, mapM_eq_some_iff,
    List.forall₂_map_left_iff]
  exact List.forall₂_same.mpr fun rule _ => dropPrefix?_append _ rule

theorem unbroken_of_dropped {mark : Text} {lines : List Text}
    (dropped : List.Forall₂ (fun line text => dropPrefix? mark line = some text) lines texts)
    (unbroken : ∀ line ∈ lines, '\n' ∉ line) : ∀ text ∈ texts, '\n' ∉ text := by
  induction dropped with
  | nil => simp
  | cons first _ ih =>
    obtain ⟨here, others⟩ := List.forall_mem_cons.mp unbroken
    refine List.forall_mem_cons.mpr ⟨?_, ih others⟩
    obtain ⟨-, kept⟩ := Option.ite_none_right_eq_some.mp first
    obtain rfl := Option.some.inj kept
    exact fun inside => here (List.mem_of_mem_drop inside)

theorem unbroken_of_rulesOfText? {output : Text} (read : rulesOfText? newFieldName output = some texts) :
    ∀ text ∈ texts, '\n' ∉ text := by
  obtain ⟨body, -, lines⟩ := Option.bind_eq_some_iff.mp read
  rw [mapM_eq_some_iff] at lines
  exact unbroken_of_dropped lines fun line member => not_mem_of_mem_splitOn (mem_splitOn_of_mem_split member)

end Printed

section Outcomes

variable {regexes : Regexes} {maxAllowedRules : Nat} {keyNumber : YamlNode → Option Nat} {baseRule : Entries}
  {contents : List RulesetContent} {overwriteOriginalRules newFieldName : Bool} {rules carried : List Text}

def originalRules (baseRule : Entries) (overwriteOriginalRules newFieldName : Bool) : YamlNode :=
  ((if overwriteOriginalRules then none else definedField baseRule (fieldName newFieldName)).getD .null)

def generatedRules (regexes : Regexes) (maxAllowedRules : Nat) (contents : List RulesetContent) : List Text :=
  allowed maxAllowedRules 0 (contents.flatMap (rulesOf regexes))

theorem definedField_setField (entries : Entries) (key : Text) (value : YamlNode) :
    definedField (setField key value entries) key = some value := by
  induction entries with
  | nil => simp [setField, definedField, YamlNode.text?]
  | cons entry rest ih =>
    by_cases here : entry.1.text? = some key
    · simp [setField, definedField, here]
    · simpa [setField, definedField, here] using ih

theorem foldl_concat (first rules : List Text) : rules.foldl (fun rules rule => rules ++ [rule]) first = first ++ rules := by
  induction rules generalizing first with
  | nil => simp
  | cons rule rest ih => simp [ih]

def YamlNode.pushAll (node : YamlNode) (rules : List Text) : Except YamlError YamlNode :=
  rules.foldlM (fun node rule => node.pushBack (.scalar rule)) node

theorem pushAll_sequence (items : List YamlNode) (rules : List Text) :
    (YamlNode.sequence items).pushAll rules = .ok (.sequence (items ++ rules.map .scalar)) := by
  induction rules generalizing items with
  | nil => simp [YamlNode.pushAll, pure, Except.pure]
  | cons rule rest ih =>
    have next := ih (items ++ [.scalar rule])
    simpa [YamlNode.pushAll, YamlNode.pushBack, bind, Except.bind] using next

theorem rules?_append (items : List YamlNode) (rules : List Text) :
    (YamlNode.sequence (items ++ rules.map .scalar)).rules? = (YamlNode.sequence items).rules?.map (· ++ rules) := by
  have scalars : (rules.map YamlNode.scalar).mapM (fun item => (safeAs (some item)).toOption) = some rules := by
    rw [mapM_eq_some_iff, List.forall₂_map_left_iff]
    exact List.forall₂_same.mpr fun _ _ => rfl
  simp only [YamlNode.rules?, List.mapM_append, scalars]
  cases items.mapM fun item => (safeAs (some item)).toOption <;> rfl

theorem rules?_pushAll (node : YamlNode) (rules : List Text) :
    (node.pushAll rules).toOption.bind YamlNode.rules? = node.rules?.map (· ++ rules) := by
  cases node with
  | null =>
    cases rules with
    | nil => rfl
    | cons rule rest =>
      have pushed : YamlNode.null.pushAll (rule :: rest) = (YamlNode.sequence [.scalar rule]).pushAll rest := rfl
      rw [pushed, pushAll_sequence, Except.toOption, Option.bind_some]
      exact rules?_append [] (rule :: rest)
  | sequence items =>
    rw [pushAll_sequence, Except.toOption, Option.bind_some]
    exact rules?_append items rules
  | scalar | map => cases rules <;> rfl

theorem nodeRules_eq :
    nodeRules regexes maxAllowedRules baseRule contents overwriteOriginalRules newFieldName =
      (originalRules baseRule overwriteOriginalRules newFieldName).rules?.map
        (· ++ generatedRules regexes maxAllowedRules contents) := by
  rw [← rules?_pushAll]
  unfold nodeRules rulesetToClash
  simp only [emitContents_eq, Emission.addAll, foldl_concat, List.nil_append]
  rw [← generatedRules, ← YamlNode.pushAll, ← originalRules]
  cases (originalRules baseRule overwriteOriginalRules newFieldName).pushAll
      (generatedRules regexes maxAllowedRules contents) with
  | error error => rfl
  | ok node => simp [bind, Except.bind, pure, Except.pure, Except.toOption, definedField_setField]

theorem carry_items {items : List YamlNode} (read : (YamlNode.sequence items).rules? = some carried) (output : Text) :
    (items.map some).foldlM (fun output node => do
      let rule ← safeAs node
      return writeRule output rule) output = .ok (carried.foldl writeRule output) := by
  rw [YamlNode.rules?, mapM_eq_some_iff] at read
  induction read generalizing output with
  | nil => rfl
  | @cons item rule _ _ first _ ih =>
    have value : safeAs (some item) = .ok rule := by
      cases result : safeAs (some item) with
      | error error => simp [result, Except.toOption] at first
      | ok text => simpa [result, Except.toOption] using first
    simpa [value, bind, Except.bind, pure, Except.pure] using ih (writeRule output rule)

theorem carry_section {node : YamlNode} (read : node.rules? = some carried) (output : Text) :
    (List.range node.size).foldlM (fun output i => do
      let rule ← safeAs (node.at? keyNumber i)
      return writeRule output rule) output = .ok (carried.foldl writeRule output) := by
  cases node with
  | null => rw [← Option.some.inj read]; rfl
  | sequence items =>
    have indexed : (List.range items.length).map (fun i => items[i]?) = items.map some := by
      apply List.ext_getElem
      · simp
      · intro i _ _
        simp
    rw [← carry_items read output, ← indexed, List.foldlM_map]
    rfl
  | scalar | map => cases read

theorem textRules_eq
    (read : (originalRules baseRule overwriteOriginalRules newFieldName).rules? = some carried) :
    textRules regexes maxAllowedRules keyNumber baseRule contents overwriteOriginalRules newFieldName =
      rulesOfText? newFieldName
        (header newFieldName ++ printed (carried ++ generatedRules regexes maxAllowedRules contents)) := by
  unfold textRules rulesetToClashStr
  dsimp only
  rw [← header]
  generalize original : (if overwriteOriginalRules then none else definedField baseRule (fieldName newFieldName)) = found?
  have carry : (List.range (found?.elim 0 YamlNode.size)).foldlM (fun output i => do
      let rule ← safeAs (found?.bind (YamlNode.at? keyNumber i))
      return writeRule output rule) (header newFieldName) = .ok (carried.foldl writeRule (header newFieldName)) := by
    rw [originalRules, original] at read
    cases found? with
    | none => rw [← Option.some.inj read]; rfl
    | some node => exact carry_section read _
  rw [carry]
  simp [bind, Except.bind, pure, Except.pure, emitContents_eq, Emission.addAll, foldl_writeRule, generatedRules,
    printed_append]

end Outcomes

section Agreement

variable {regexes : Regexes} {maxAllowedRules : Nat} {keyNumber : YamlNode → Option Nat} {baseRule : Entries}
  {contents : List RulesetContent} {overwriteOriginalRules newFieldName : Bool} {rules carried : List Text}

def YamlNode.Carryable : YamlNode → Prop
  | .null => True
  | .sequence items => ∀ item ∈ items, item = .null ∨ ∃ text, item = .scalar text ∧ '\n' ∉ text
  | .scalar _ | .map _ => False

def ruleCount (regexes : Regexes) (content : RulesetContent) : Nat :=
  if content.ruleContent = [] then 0
  else if startsWith content.ruleContent ['[', ']'] then 1
  else (convertedLines regexes content).countP isClashRule

def Reached (regexes : Regexes) (maxAllowedRules : Nat) (before : List RulesetContent) : Prop :=
  maxAllowedRules = 0 ∨ (before.map (ruleCount regexes)).sum ≤ maxAllowedRules

def Unbroken (content : RulesetContent) : Prop :=
  '\n' ∉ content.ruleGroup ∧
    (startsWith content.ruleContent ['[', ']'] → ∀ part ∈ keptParts (content.ruleContent.drop 2), '\n' ∉ part)

theorem length_rulesOf (content : RulesetContent) : (rulesOf regexes content).length = ruleCount regexes content := by
  unfold rulesOf ruleCount
  split_ifs <;> simp [List.countP_eq_length_filter]

theorem newline_not_mem_convertedLines {content : RulesetContent} :
    ∀ line ∈ convertedLines regexes content, '\n' ∉ line := by
  intro line member
  have part := mem_splitOn_of_mem_split member
  unfold getLineBreak at part
  split_ifs at part with broken
  next => exact not_mem_of_mem_splitOn part
  next => exact fun inside => broken (mem_of_mem_splitOn part inside)

theorem newline_mem_clashRule_iff {content : RulesetContent} {line : Text} (unbroken : '\n' ∉ line) :
    '\n' ∈ clashRule content line ↔ '\n' ∈ content.ruleGroup := by
  rw [clashRule, newline_mem_appendClashIpCidrNoResolve_iff, newline_mem_appendClashRuleTarget_iff, or_iff_left_iff_imp]
  rintro ⟨part, kept, inside⟩
  exact absurd (mem_of_mem_trimWhitespace (mem_of_mem_stripRulesetComment (mem_of_mem_keptParts kept inside))) unbroken

theorem newline_mem_rulesOf_iff {content : RulesetContent} {rule : Text} (member : rule ∈ rulesOf regexes content) :
    '\n' ∉ rule ↔ Unbroken content := by
  unfold rulesOf at member
  split_ifs at member with empty inline
  next => cases member
  next =>
    rw [List.mem_singleton.mp member, newline_mem_appendClashRuleTarget_iff]
    simp [Unbroken, inline]
  next =>
    obtain ⟨line, kept, rfl⟩ := List.mem_map.mp member
    have there := List.mem_of_mem_filter kept
    rw [newline_mem_clashRule_iff (newline_not_mem_convertedLines line there)]
    simp [Unbroken, inline]

theorem allowed_unbroken_iff {total : Nat} (room : maxAllowedRules = 0 ∨ total ≤ maxAllowedRules) (content : RulesetContent) :
    (∀ rule ∈ allowed maxAllowedRules total (rulesOf regexes content), '\n' ∉ rule) ↔
      (ruleCount regexes content ≠ 0 → Unbroken content) := by
  have subset : ∀ rule ∈ allowed maxAllowedRules total (rulesOf regexes content), rule ∈ rulesOf regexes content := by
    unfold allowed
    split_ifs
    next => exact fun rule member => member
    next => exact fun rule member => List.mem_of_mem_take member
  constructor
  · intro unbroken some
    rw [← length_rulesOf] at some
    obtain ⟨rule, first⟩ : ∃ rule, rule ∈ allowed maxAllowedRules total (rulesOf regexes content) := by
      cases rules : rulesOf regexes content with
      | nil => simp [rules] at some
      | cons rule rest =>
        by_cases unlimited : maxAllowedRules = 0
        · simp [allowed, unlimited]
        · have more : maxAllowedRules + 1 - total ≠ 0 := by omega
          obtain ⟨count, counted⟩ := Nat.exists_eq_succ_of_ne_zero more
          simp [allowed, unlimited, counted]
    exact (newline_mem_rulesOf_iff (subset rule first)).mp (unbroken rule first)
  · intro unbroken rule member
    have there := subset rule member
    refine (newline_mem_rulesOf_iff there).mpr (unbroken ?_)
    rw [← length_rulesOf]
    exact (List.length_pos_of_mem there).ne'

theorem generated_unbroken_iff (total : Nat) :
    (∀ rule ∈ allowed maxAllowedRules total (contents.flatMap (rulesOf regexes)), '\n' ∉ rule) ↔
      ∀ before content behind, contents = before ++ content :: behind →
        maxAllowedRules = 0 ∨ total + (before.map (ruleCount regexes)).sum ≤ maxAllowedRules →
        ruleCount regexes content ≠ 0 → Unbroken content := by
  induction contents generalizing total with
  | nil => simp [allowed]
  | cons content rest ih =>
    rw [List.flatMap_cons, allowed_append, List.forall_mem_append, length_rulesOf, ih]
    constructor
    · rintro ⟨here, others⟩ before other behind whole reached
      rcases before with _ | ⟨first, before⟩
      · obtain ⟨rfl, rfl⟩ := List.cons.inj whole
        exact (allowed_unbroken_iff (by simpa using reached) content).mp here
      · obtain ⟨rfl, rfl⟩ := List.cons.inj whole
        exact others before other behind rfl (by simpa [Nat.add_assoc] using reached)
    · intro all
      constructor
      · by_cases room : maxAllowedRules = 0 ∨ total ≤ maxAllowedRules
        · exact (allowed_unbroken_iff room content).mpr (all [] content rest rfl (by simpa using room))
        · have none : maxAllowedRules + 1 - total = 0 := by omega
          simp [allowed, (not_or.mp room).1, none]
      · intro before other behind whole reached
        exact all (content :: before) other behind (by rw [whole]; rfl) (by simpa [Nat.add_assoc] using reached)

theorem carryable_iff {node : YamlNode} :
    node.Carryable ↔ ∃ carried, node.rules? = some carried ∧ ∀ rule ∈ carried, '\n' ∉ rule := by
  cases node with
  | null => simp [YamlNode.Carryable, YamlNode.rules?]
  | scalar | map => simp [YamlNode.Carryable, YamlNode.rules?]
  | sequence items =>
    simp only [YamlNode.Carryable, YamlNode.rules?, mapM_eq_some_iff]
    induction items with
    | nil => simp
    | cons item rest ih =>
      rw [List.forall_mem_cons, ih]
      constructor
      · rintro ⟨here, carried, reads, unbroken⟩
        rcases here with rfl | ⟨text, rfl, whole⟩
        · exact ⟨[] :: carried, .cons rfl reads, List.forall_mem_cons.mpr ⟨by simp, unbroken⟩⟩
        · exact ⟨text :: carried, .cons rfl reads, List.forall_mem_cons.mpr ⟨whole, unbroken⟩⟩
      · rintro ⟨_, reads, unbroken⟩
        cases reads with
        | cons first others =>
          obtain ⟨here, behind⟩ := List.forall_mem_cons.mp unbroken
          refine ⟨?_, _, others, behind⟩
          cases item with
          | null => exact Or.inl rfl
          | scalar text =>
            obtain rfl := Option.some.inj first
            exact Or.inr ⟨_, rfl, here⟩
          | sequence | map => cases first

theorem emitters_agree_iff (regexes : Regexes) (maxAllowedRules : Nat) (keyNumber : YamlNode → Option Nat)
    (baseRule : Entries) (contents : List RulesetContent) (overwriteOriginalRules newFieldName : Bool) :
    (∃ rules, nodeRules regexes maxAllowedRules baseRule contents overwriteOriginalRules newFieldName = some rules ∧
      textRules regexes maxAllowedRules keyNumber baseRule contents overwriteOriginalRules newFieldName = some rules) ↔
    (originalRules baseRule overwriteOriginalRules newFieldName).Carryable ∧
      ∀ before content behind, contents = before ++ content :: behind → Reached regexes maxAllowedRules before →
        ruleCount regexes content ≠ 0 → Unbroken content := by
  have generated := @generated_unbroken_iff regexes maxAllowedRules contents 0
  simp only [Nat.zero_add] at generated
  unfold Reached
  rw [← generated, carryable_iff, ← generatedRules]
  constructor
  · rintro ⟨rules, written, printed⟩
    rw [nodeRules_eq, Option.map_eq_some_iff] at written
    obtain ⟨carried, read, rfl⟩ := written
    rw [textRules_eq read] at printed
    obtain ⟨first, second⟩ := List.forall_mem_append.mp (unbroken_of_rulesOfText? printed)
    exact ⟨⟨carried, read, first⟩, second⟩
  · rintro ⟨⟨carried, read, first⟩, second⟩
    refine ⟨carried ++ generatedRules regexes maxAllowedRules contents, by rw [nodeRules_eq, read, Option.map_some], ?_⟩
    rw [textRules_eq read]
    exact rulesOfText?_printed (List.forall_mem_append.mpr ⟨first, second⟩)

theorem emitters_disagree :
    let literal : Regexes := { find := fun _ _ => false, replace := fun text _ _ => text }
    let fetched : RulesetContent := { ruleGroup := ['G'], ruleContent := chars "[]DOMAIN,a.com\nDOMAIN,b.com" }
    nodeRules literal 0 [] [fetched] false true = some [chars "DOMAIN,a.com\nDOMAIN,G,b.com"] ∧
      ¬∃ rules, nodeRules literal 0 [] [fetched] false true = some rules ∧
        textRules literal 0 (fun _ => none) [] [fetched] false true = some rules := by
  intro literal fetched
  have unread : textRules literal 0 (fun _ => none) [] [fetched] false true = none := by decide
  exact ⟨by decide, by simp [unread]⟩

end Agreement

end SubConverter.Generator
