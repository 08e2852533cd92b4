import SubConverter.Lib.Results
import SubConverter.Generator.SurgeRules

set_option autoImplicit false

namespace SubConverter.Generator

open Handler (trimWhitespace startsWith split getLineBreak isSpace toUpper)
open Utils.IniReader (Members)

section Tokens

variable {line rule target type : Text} {noResolveOnly : Bool}

def firstToken (line : Text) : Text := line.takeWhile (· ≠ ',')

theorem comma_not_mem_firstToken : ',' ∉ firstToken line := by
  intro there
  simpa using List.mem_takeWhile_imp there

@[simp] theorem firstToken_append (line rest : Text) : firstToken (line ++ ',' :: rest) = firstToken line := by
  induction line with
  | nil => rfl
  | cons c line ih =>
    by_cases comma : c = ','
    · simp [firstToken, comma]
    · simpa [firstToken, comma] using ih

theorem firstToken_of_not_mem (absent : ',' ∉ line) : firstToken line = line := by
  rw [firstToken, List.takeWhile_eq_self_iff]
  intro c there
  have differs : c ≠ ',' := fun same => absent (same ▸ there)
  simpa using differs

theorem firstToken_firstToken : firstToken (firstToken line) = firstToken line := firstToken_of_not_mem comma_not_mem_firstToken

theorem head_split {first : Text} {rest : List Text} (parts : split line ',' = first :: rest) : first = firstToken line := by
  by_cases comma : ',' ∈ line
  · obtain ⟨left, right, rfl, before⟩ := List.eq_append_cons_of_mem comma
    rw [split_append_cons before] at parts
    rw [firstToken_append, firstToken_of_not_mem before]
    exact (List.cons.inj parts).1.symm
  · rw [split, List.splitOn_eq_singleton comma] at parts
    rw [firstToken_of_not_mem comma]
    split at parts
    next => cases parts
    next => exact (List.cons.inj parts).1.symm

theorem firstToken_transformRuleToCommon (common : transformRuleToCommon line target noResolveOnly = some rule) :
    firstToken rule = firstToken line := by
  unfold transformRuleToCommon at common
  split at common
  next => cases common
  next first parts =>
    obtain rfl := Option.some.inj common
    rw [firstToken_append, head_split parts, firstToken_firstToken]
  next first payload rest parts =>
    dsimp only at common
    split at common
    next =>
      obtain rfl := Option.some.inj common
      rw [List.append_assoc, List.cons_append, firstToken_append, head_split parts, firstToken_firstToken]
    next option _ =>
      have written : ∃ behind, rule = first ++ ',' :: behind := by
        split at common <;> obtain rfl := Option.some.inj common
        next => exact ⟨payload ++ ',' :: target ++ ',' :: option, by simp⟩
        next => exact ⟨payload ++ ',' :: target, by simp⟩
      obtain ⟨behind, rfl⟩ := written
      rw [firstToken_append, head_split parts, firstToken_firstToken]

theorem firstToken_appendClashRuleTarget :
    firstToken (appendClashRuleTarget rule target noResolveOnly) =
      if terminalType (lineType (trimWhitespace rule)) then chars "MATCH" else firstToken (trimWhitespace rule) := by
  have terminal : terminalType (lineType (trimWhitespace rule)) ↔
      lineType (trimWhitespace rule) = chars "FINAL" ∨ lineType (trimWhitespace rule) = chars "MATCH" := by
    simp [terminalType]
  simp only [terminal]
  unfold appendClashRuleTarget
  dsimp only
  rw [← lineType]
  split
  next => rfl
  next =>
    split
    next => exact firstToken_append _ _
    next =>
      split
      next first payload rest parts =>
        cases rest with
        | nil => rw [List.append_assoc, List.cons_append, firstToken_append, head_split parts, firstToken_firstToken]
        | cons option more =>
          dsimp only
          split
          next =>
            rw [List.append_assoc, List.append_assoc, List.cons_append, firstToken_append, head_split parts, firstToken_firstToken]
          next => rw [List.append_assoc, List.cons_append, firstToken_append, head_split parts, firstToken_firstToken]
      next => exact firstToken_append _ _

theorem firstToken_appendClashIpCidrNoResolve (type : RulesetType) (options : RulesetOptions) :
    firstToken (appendClashIpCidrNoResolve rule type options) = firstToken rule := by
  unfold appendClashIpCidrNoResolve
  dsimp only
  split_ifs
  next => rfl
  next => rfl
  next => rfl
  next => exact firstToken_append rule _

end Tokens

section Copied

variable {line rule type : Text}

def sourceType (line : Text) : Text := firstToken (strippedLine line)

theorem firstToken_behind {mark : Text} (absent : ',' ∉ mark) (rest : Text) : firstToken (mark ++ rest) = mark ++ firstToken rest := by
  rw [firstToken, firstToken, List.takeWhile_append_of_pos]
  intro c there
  have differs : c ≠ ',' := fun same => absent (same ▸ there)
  simpa using differs

theorem startsWith_firstToken {mark : Text} (absent : ',' ∉ mark) (begins : startsWith line mark) :
    startsWith (firstToken line) mark := by
  obtain ⟨rest, rfl⟩ := List.isPrefixOf_iff_prefix.mp begins
  rw [firstToken_behind absent]
  exact List.isPrefixOf_iff_prefix.mpr (List.prefix_append _ _)

theorem eq_of_firstToken (first : firstToken line = type) : line = type ∨ ∃ rest, line = type ++ ',' :: rest := by
  by_cases comma : ',' ∈ line
  · obtain ⟨left, right, rfl, before⟩ := List.eq_append_cons_of_mem comma
    rw [firstToken_append, firstToken_of_not_mem before] at first
    exact .inr ⟨right, by rw [first]⟩
  · exact .inl (firstToken_of_not_mem comma ▸ first)

theorem trimWhitespace_typed {c : Char} (letter : isSpace c = false) (more rest : Text) :
    ∃ behind, trimWhitespace (c :: more ++ ',' :: rest) = c :: more ++ ',' :: behind := by
  have ends : ∀ before : Text, (before ++ ',' :: (c :: more).reverse).dropWhile isSpace =
      before.dropWhile isSpace ++ ',' :: (c :: more).reverse := by
    intro before
    rw [List.dropWhile_append]
    split
    next gone =>
      rw [List.isEmpty_iff.mp gone, List.dropWhile_cons_of_neg (by decide), List.nil_append]
    next => rfl
  refine ⟨(rest.reverse.dropWhile isSpace).reverse, ?_⟩
  rw [trimWhitespace, strip, List.cons_append, List.dropWhile_cons_of_neg (by simp [letter]), ← List.cons_append, List.reverse_append,
    List.reverse_cons, List.append_assoc, List.singleton_append, ends]
  simp

theorem plain_types : ∀ type ∈ clashRuleTypes, trimWhitespace type = type ∧ (type.head?.any fun c => !isSpace c) ∧ toUpper type = type := by
  decide

theorem firstToken_trimWhitespace (supported : firstToken line ∈ clashRuleTypes) :
    firstToken (trimWhitespace line) = firstToken line := by
  obtain ⟨trimmed, letter, -⟩ := plain_types _ supported
  rcases @eq_of_firstToken line _ rfl with whole | ⟨rest, whole⟩
  · rw [whole, firstToken_firstToken, trimmed, firstToken_firstToken]
  · cases type : firstToken line with
    | nil => simp [type] at letter
    | cons c more =>
      rw [type] at whole letter
      obtain ⟨behind, same⟩ := trimWhitespace_typed (by simpa using letter) more rest
      rw [whole, same, firstToken_append, ← type, firstToken_firstToken]

theorem firstToken_clashRule (content : RulesetContent) (supported : sourceType line ∈ clashRuleTypes) :
    firstToken (clashRule content line) = if terminalType (sourceType line) then chars "MATCH" else sourceType line := by
  obtain ⟨trimmed, -, upper⟩ := plain_types _ supported
  have type : lineType (trimWhitespace (strippedLine line)) = sourceType line := by
    rw [lineType, ← firstToken, firstToken_trimWhitespace supported, ← sourceType, trimmed, upper]
  rw [clashRule, firstToken_appendClashIpCidrNoResolve, firstToken_appendClashRuleTarget, ← strippedLine, type,
    firstToken_trimWhitespace supported, ← sourceType]

variable {env : SurgeEnv} {content : RulesetSource} {target : Text}

theorem firstToken_surgeTarget (targeted : surgeTarget env line target = some rule) : firstToken rule = firstToken line := by
  unfold surgeTarget at targeted
  split at targeted
  next => exact firstToken_transformRuleToCommon targeted
  next =>
    split at targeted
    next => rw [Option.some.inj targeted]
    next => exact firstToken_transformRuleToCommon targeted

theorem not_startsWith_quanXType : ∀ type ∈ quanXRuleTypes, startsWith type (chars "IP-CIDR6") = false := by decide

theorem firstToken_surgeRule (copied : surgeRule env content line = some rule) (supported : sourceType line ∈ surgeVersionTypes env.surgeVer) :
    firstToken rule = sourceType line := by
  rw [firstToken_surgeTarget copied, translatedType]
  split
  next older =>
    obtain ⟨version, begins⟩ := (Bool.and_eq_true _ _).mp older
    rw [surgeVersionTypes, if_pos version] at supported
    have starts := startsWith_firstToken (by decide) begins
    rw [← sourceType, not_startsWith_quanXType _ supported] at starts
    cases starts
  next => rfl

theorem firstToken_surgeRule_ipv6 (copied : surgeRule env content line = some rule) (version : isQuantumult env.surgeVer)
    (type : sourceType line = chars "IP-CIDR6") : firstToken rule = chars "IP6-CIDR" := by
  have behind : ∃ rest, strippedLine line = chars "IP-CIDR6" ++ rest ∧ firstToken rest = [] := by
    rcases eq_of_firstToken type with whole | ⟨rest, whole⟩
    · exact ⟨[], by rw [whole, List.append_nil], rfl⟩
    · exact ⟨',' :: rest, whole, rfl⟩
  obtain ⟨rest, whole, empty⟩ := behind
  have begins : startsWith (strippedLine line) (chars "IP-CIDR6") :=
    List.isPrefixOf_iff_prefix.mpr (whole ▸ List.prefix_append _ _)
  have kept : (strippedLine line).drop 8 = rest := by rw [whole]; rfl
  rw [firstToken_surgeTarget copied, translatedType, if_pos (by simp [version, begins]), kept, firstToken_behind (by decide), empty,
    List.append_nil]

end Copied

section Outputs

variable {regexes : Regexes} {maxAllowedRules : Nat} {keyNumber : YamlNode → Option Nat} {baseRule : Entries}
  {contents : List RulesetContent} {overwriteOriginalRules newFieldName : Bool}

def clashWritten (regexes : Regexes) (content : RulesetContent) : List Written :=
  if content.ruleContent = [] then []
  else if startsWith content.ruleContent ['[', ']'] then
    [.inline (appendClashRuleTarget (content.ruleContent.drop 2) content.ruleGroup false)]
  else ((convertedLines regexes content).filter isClashRule).map fun line => .copied line (clashRule content line)

theorem rules_clashWritten (contents : List RulesetContent) :
    (contents.flatMap (clashWritten regexes)).filterMap Written.rule? = contents.flatMap (rulesOf regexes) := by
  induction contents with
  | nil => rfl
  | cons content rest ih =>
    rw [List.flatMap_cons, List.filterMap_append, ih, List.flatMap_cons, clashWritten, rulesOf]
    congr 1
    split_ifs
    next => rfl
    next => rfl
    next =>
      rw [List.filterMap_map, ← List.filterMap_eq_map]
      rfl

theorem generatedRules_written (maxAllowedRules : Nat) (contents : List RulesetContent) :
    ∃ written, written <+: contents.flatMap (clashWritten regexes) ∧
      generatedRules regexes maxAllowedRules contents = written.filterMap Written.rule? := by
  rw [← List.prefix_filterMap_iff, rules_clashWritten, generatedRules, allowed]
  split_ifs
  next => exact List.prefix_rfl
  next => exact List.take_prefix _ _

theorem rulesetToClash_generated {entries : Entries}
    (done : rulesetToClash regexes maxAllowedRules baseRule contents overwriteOriginalRules newFieldName = .ok entries) :
    ∃ node, definedField entries (fieldName newFieldName) = some node ∧
      (originalRules baseRule overwriteOriginalRules newFieldName).pushAll (generatedRules regexes maxAllowedRules contents) =
        .ok node := by
  unfold rulesetToClash at done
  simp only [emitContents_eq, Emission.addAll, foldl_concat, List.nil_append] at done
  rw [← generatedRules, ← YamlNode.pushAll, ← originalRules, bind_eq_ok_iff] at done
  obtain ⟨node, pushed, same⟩ := done
  obtain rfl := Except.ok.inj same
  exact ⟨node, definedField_setField _ _ _, pushed⟩

def carriedText (keyNumber : YamlNode → Option Nat) (baseRule : Entries) (overwriteOriginalRules newFieldName : Bool) :
    Except YamlError Text :=
  let original := if overwriteOriginalRules then none else definedField baseRule (fieldName newFieldName)
  (List.range (original.elim 0 YamlNode.size)).foldlM (fun output i => do
    let rule ← safeAs (original.bind (YamlNode.at? keyNumber i))
    return writeRule output rule) (header newFieldName)

theorem rulesetToClashStr_generated {output : Text} {entries : Entries}
    (done : rulesetToClashStr regexes maxAllowedRules keyNumber baseRule contents overwriteOriginalRules newFieldName =
      .ok (output, entries)) :
    ∃ carried, carriedText keyNumber baseRule overwriteOriginalRules newFieldName = .ok carried ∧
      output = carried ++ printed (generatedRules regexes maxAllowedRules contents) := by
  unfold rulesetToClashStr at done
  rw [bind_eq_ok_iff] at done
  obtain ⟨carried, read, same⟩ := done
  refine ⟨carried, read, ?_⟩
  simp only [emitContents_eq, Emission.addAll, foldl_writeRule] at same
  exact (Prod.mk.inj (Except.ok.inj same)).1.symm

end Outputs

section Types

variable {regexes : Regexes} {written : List Written}

def ClashTyped (written : List Written) : Prop :=
  ∀ line rule, .copied line rule ∈ written → sourceType line ∈ clashRuleTypes →
    firstToken rule ∈ clashRuleTypes ∧ firstToken rule = if terminalType (sourceType line) then chars "MATCH" else sourceType line

def SurgeTyped (surgeVer : Int) (written : List Written) : Prop :=
  ∀ line rule, .copied line rule ∈ written →
    (sourceType line ∈ surgeVersionTypes surgeVer → firstToken rule ∈ surgeVersionTypes surgeVer ∧ firstToken rule = sourceType line) ∧
    (isQuantumult surgeVer → sourceType line = chars "IP-CIDR6" → firstToken rule = chars "IP6-CIDR")

theorem clashTyped_of_prefix {contents : List RulesetContent} (first : written <+: contents.flatMap (clashWritten regexes)) :
    ClashTyped written := by
  intro line rule there supported
  obtain ⟨content, -, here⟩ := List.mem_flatMap.mp (first.subset there)
  have copied : rule = clashRule content line := by
    unfold clashWritten at here
    split_ifs at here
    next => cases here
    next => simp at here
    next =>
      obtain ⟨_, -, same⟩ := List.mem_map.mp here
      obtain ⟨rfl, rfl⟩ := Written.copied.inj same
      rfl
  have token := firstToken_clashRule content supported
  rw [copied]
  refine ⟨?_, token⟩
  rw [token]
  split
  next => decide
  next => exact supported

theorem copied_of_surgeWritten {env : SurgeEnv} {content : RulesetSource} {line rule : Text}
    (there : .copied line rule ∈ surgeWritten env content) : surgeRule env content line = some rule := by
  unfold surgeWritten at there
  split at there
  next => simp at there
  next =>
    split at there
    next => simp at there
    next => simp at there
    next => cases there
    next =>
      split at there
      next => cases there
      next =>
        obtain ⟨line, -, here⟩ := List.mem_flatMap.mp there
        unfold copiedLine at here
        split at here
        next =>
          obtain ⟨rule, copied, same⟩ := Option.map_eq_some_iff.mp (Option.mem_toList.mp here)
          obtain ⟨rfl, rfl⟩ := Written.copied.inj same
          exact copied
        next => cases here

theorem surgeTyped_of_prefix {env : SurgeEnv} {contents : List RulesetSource} (first : written <+: contents.flatMap (surgeWritten env)) :
    SurgeTyped env.surgeVer written := by
  intro line rule there
  obtain ⟨content, -, here⟩ := List.mem_flatMap.mp (first.subset there)
  have copied := copied_of_surgeWritten here
  refine ⟨fun supported => ?_, fun version type => firstToken_surgeRule_ipv6 copied version type⟩
  have token := firstToken_surgeRule copied supported
  exact ⟨token ▸ supported, token⟩

theorem copied_types (env : SurgeEnv) (keyNumber : YamlNode → Option Nat) (baseRule : Entries) (base : Members)
    (contents : List RulesetContent) (sources : List RulesetSource) (overwriteOriginalRules newFieldName : Bool) :
    (∀ entries, rulesetToClash env.regexes env.maxAllowedRules baseRule contents overwriteOriginalRules newFieldName = .ok entries →
      ∃ written, written <+: contents.flatMap (clashWritten env.regexes) ∧ ClashTyped written ∧
        ∃ node, definedField entries (fieldName newFieldName) = some node ∧
          (originalRules baseRule overwriteOriginalRules newFieldName).pushAll (written.filterMap Written.rule?) = .ok node) ∧
    (∀ output entries, rulesetToClashStr env.regexes env.maxAllowedRules keyNumber baseRule contents overwriteOriginalRules
        newFieldName = .ok (output, entries) →
      ∃ written, written <+: contents.flatMap (clashWritten env.regexes) ∧ ClashTyped written ∧
        ∃ carried, carriedText keyNumber baseRule overwriteOriginalRules newFieldName = .ok carried ∧
          output = carried ++ printed (written.filterMap Written.rule?)) ∧
    (∀ after rules, rulesetToSurge env base sources overwriteOriginalRules = some (after, rules) →
      ∃ written, written <+: sources.flatMap (surgeWritten env) ∧ SurgeTyped env.surgeVer written ∧
        after = setRules (written.foldl Written.setRemote (surgeBase env.surgeVer base overwriteOriginalRules))
          (written.filterMap Written.rule?)) := by
  obtain ⟨written, first, generated⟩ := @generatedRules_written env.regexes env.maxAllowedRules contents
  refine ⟨fun entries done => ?_, fun output entries done => ?_, fun after rules done => ?_⟩
  · obtain ⟨node, found, pushed⟩ := rulesetToClash_generated done
    exact ⟨written, first, clashTyped_of_prefix first, node, found, generated ▸ pushed⟩
  · obtain ⟨carried, read, whole⟩ := rulesetToClashStr_generated done
    exact ⟨written, first, clashTyped_of_prefix first, carried, read, generated ▸ whole⟩
  · obtain ⟨written, first, -, whole, -⟩ := rulesetToSurge_writes done
    exact ⟨written, first, surgeTyped_of_prefix first, whole⟩

def plainSurge (surgeVer : Int) : SurgeEnv where
  regexes := { find := fun _ _ => false, replace := fun text _ _ => text }
  maxAllowedRules := 0
  surgeVer := surgeVer
  remotePathPrefix := []
  fileExist := fun _ => true
  urlSafeBase64Encode := id

def fetchedRules (rules : String) : RulesetSource :=
  { ruleGroup := ['G'], ruleContent := chars rules ++ ['\n'], rulePath := chars "rules.list" }

theorem copied_types_fetched :
    ∃ written, written <+: [fetchedRules "IP-CIDR6,::1/128"].flatMap (surgeWritten (plainSurge (-3))) ∧ SurgeTyped (-3) written ∧
      (rulesetToSurge (plainSurge (-3)) {} [fetchedRules "IP-CIDR6,::1/128"] false).map Prod.fst =
        some (setRules (written.foldl Written.setRemote (surgeBase (-3) {} false)) (written.filterMap Written.rule?)) := by
  cases done : rulesetToSurge (plainSurge (-3)) {} [fetchedRules "IP-CIDR6,::1/128"] false with
  | none =>
    have absent : (rulesetToSurge (plainSurge (-3)) {} [fetchedRules "IP-CIDR6,::1/128"] false).isSome := by decide
    rw [done] at absent
    cases absent
  | some result =>
    obtain ⟨written, first, typed, whole⟩ := (copied_types (plainSurge (-3)) (fun _ => none) [] {} []
      [fetchedRules "IP-CIDR6,::1/128"] false true).2.2 result.1 result.2 done
    exact ⟨written, first, typed, congrArg some whole⟩

theorem copied_types_unsupported :
    (nodeRules (plainSurge 4).regexes 0 [] [(fetchedRules "DOMAIN-SET,a.com").toRulesetContent] false true =
        some [chars "DOMAIN-SET,a.com,G"] ∧
      chars "DOMAIN-SET" ∉ clashRuleTypes) ∧
    ((rulesetToSurge (plainSurge 4) {} [fetchedRules "DOMAIN-SET,a.com"] false).map (fun done => done.1.iniContent) =
        some [(chars "Rule", [(noName, chars "DOMAIN-SET,a.com,G")])] ∧
      chars "DOMAIN-SET" ∉ surgeVersionTypes 4) ∧
    ((rulesetToSurge (plainSurge (-1)) {} [fetchedRules "IP-CIDR6,::1/128"] false).map (fun done => done.1.iniContent) =
        some [(chars "filter_local", [(noName, chars "IP6-CIDR,::1/128,G")])] ∧
      chars "IP6-CIDR" ∉ surgeVersionTypes (-1)) :=
  ⟨⟨by decide, by decide⟩, ⟨by rfl, by decide⟩, by rfl, by decide⟩

end Types

end SubConverter.Generator
