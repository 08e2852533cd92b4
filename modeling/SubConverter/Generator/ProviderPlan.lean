import SubConverter.Generator.ClashScript

set_option autoImplicit false

namespace SubConverter.Generator.ClashScript

open Handler (split startsWith trim isLink urlDecode)

/-! Which providers the rulesets get, stated beforehand, and that the loop over the rulesets keeps to it. -/

section Plan

structure ProviderPart where
  suffix : Text
  behavior : Text
  conversionType : Nat
deriving DecidableEq, Repr

def domainPart : ProviderPart := ⟨chars " (Domain)", chars "domain", 3⟩

def ipcidrPart : ProviderPart := ⟨chars " (IP-CIDR)", chars "ipcidr", 4⟩

def plainPart : RulesetType → ProviderPart
  | .clashDomain => ⟨[], chars "domain", 3⟩
  | .clashIpCidr => ⟨[], chars "ipcidr", 4⟩
  | _ => ⟨[], chars "classical", 6⟩

def ruleLine (strLine : Text) : Option Text :=
  let line := if strLine.getLast? = some '\r' then strLine.dropLast else strLine
  if isSkipped line ∨ startsWith line (chars "DOMAIN-KEYWORD,") then none else some line

def isDomainLine (line : Text) : Bool := startsWith line (chars "DOMAIN,") || startsWith line (chars "DOMAIN-SUFFIX,")

def isIpcidrLine (line : Text) : Bool := startsWith line (chars "IP-CIDR,") || startsWith line (chars "IP-CIDR6,")

def hasLine (kind : Text → Bool) (lines : List Text) : Bool := lines.any fun strLine => (ruleLine strLine).any kind

def readParts (domain ipcidr : Bool) : List ProviderPart :=
  (if domain then [domainPart] else []) ++ (if ipcidr then [ipcidrPart] else []) ++
    if !domain && !ipcidr then [plainPart .surge] else []

variable (env : ScriptEnv)

def contentParts (content : RulesetSource) : List ProviderPart :=
  if isClashType content.ruleType then [plainPart content.ruleType]
  else if env.clashClassicalRuleset then [plainPart .surge]
  else readParts (hasLine isDomainLine (contentLines env content)) (hasLine isIpcidrLine (contentLines env content))

def hasProvider (content : RulesetSource) : Bool :=
  content.rulePath ≠ [] && (isClashType content.ruleType ||
    (env.fileExist content.rulePath || isLink content.rulePath) && (env.clashClassicalRuleset || content.ruleContent ≠ []))

def planStep (plan : List (Text × RulesetSource)) (content : RulesetSource) : List (Text × RulesetSource) :=
  if hasProvider env content then plan ++ [(takeName content.rulePath (plan.map Prod.fst), content)] else plan

def plan (contents : List RulesetSource) : List (Text × RulesetSource) := contents.foldl (planStep env) []

def inlineRule (content : RulesetSource) : Text :=
  let strLine := content.ruleContent.drop 2
  appendClashRuleTarget (if startsWith strLine (chars "FINAL") then chars "MATCH" else strLine) content.ruleGroup false

def storedUrl (content : RulesetSource) : Text :=
  if isClashType content.ruleType then '*' :: content.rulePath else content.rulePathTyped

def writeOf (name : Text) (part : ProviderPart) : ProviderWrite := ⟨name ++ part.suffix, part.behavior, part.conversionType, name⟩

def Refers (rule key : Text) : Prop := ∃ rest, rule = chars "RULE-SET" ++ ',' :: (key ++ ',' :: rest)

def readKey (key : Text) : Text := trim (key.takeWhile (· ≠ ','))

theorem namedRuleSet_of_refers {rule key : Text} (refers : Refers rule key) : namedRuleSet rule = some (readKey key) := by
  obtain ⟨rest, rfl⟩ := refers
  have apart : ',' ∉ key.takeWhile (· ≠ ',') := fun there => by simpa using List.all_eq_true.mp List.all_takeWhile _ there
  obtain ⟨behind, whole⟩ : ∃ behind, key ++ ',' :: rest = key.takeWhile (· ≠ ',') ++ ',' :: behind := by
    have cut : key ++ ',' :: rest = key.takeWhile (· ≠ ',') ++ (key.dropWhile (· ≠ ',') ++ ',' :: rest) := by
      rw [← List.append_assoc, List.takeWhile_append_dropWhile]
    cases ends : key.dropWhile (· ≠ ',') with
    | nil => exact ⟨rest, by rw [cut, ends, List.nil_append]⟩
    | cons c more =>
      have comma : c = ',' := by
        have first := List.head?_dropWhile_not (· ≠ ',') key
        rw [ends] at first
        simpa using first
      exact ⟨more ++ ',' :: rest, by rw [cut, ends, comma, List.cons_append]⟩
  have parts : split (chars "RULE-SET" ++ ',' :: (key ++ ',' :: rest)) ',' = chars "RULE-SET" :: key.takeWhile (· ≠ ',') :: split behind ',' := by
    rw [split_append_cons (by decide), whole, split_append_cons apart]
  have kind : ruleType (chars "RULE-SET" :: key.takeWhile (· ≠ ',') :: split behind ',') = chars "RULE-SET" := by
    simp only [ruleType, List.headD_cons]
    decide
  rw [namedRuleSet, parts, if_pos kind]
  rfl

theorem takeName_not_mem (path : Text) (groups : List Text) : takeName path groups ∉ groups :=
  @key_freshName_not_mem Text Text _ id groups _ (remarkCandidate_injective _) 0

theorem plan_concat (before : List RulesetSource) (content : RulesetSource) :
    plan env (before ++ [content]) = planStep env (plan env before) content := by
  rw [plan, List.foldl_concat, ← plan]

theorem plan_names_nodup (contents : List RulesetSource) : ((plan env contents).map Prod.fst).Nodup := by
  induction contents using List.reverseRecOn with
  | nil => exact List.nodup_nil
  | append_singleton before content ih =>
    rw [plan_concat, planStep]
    split
    · rw [List.map_append, List.nodup_append]
      exact ⟨ih, List.nodup_singleton _, fun name there other last same =>
        takeName_not_mem content.rulePath _ (by rwa [same, List.mem_singleton.mp last] at there)⟩
    · exact ih

end Plan

section Lines

variable {env : ScriptEnv} {s s' s'' : ScriptState}

structure Reads (domain ipcidr : Bool) (s s' : ScriptState) : Prop where
  ruleName : s'.ruleName = s.ruleName
  groups : s'.groups = s.groups
  urls : s'.urls = s.urls
  ruleType : s'.ruleType = s.ruleType
  hasDomain : s'.hasDomain = assign s.hasDomain s.ruleName (s.hasDomain s.ruleName || domain)
  hasIpcidr : s'.hasIpcidr = assign s.hasIpcidr s.ruleName (s.hasIpcidr s.ruleName || ipcidr)
  rules : ∃ added, s'.rules = s.rules ++ added ∧ ∀ rule ∈ added, namedRuleSet rule = none

@[simp] theorem assign_self {α : Type} (map : Text → α) (key : Text) (value : α) : assign map key value key = value := if_pos rfl

@[simp] theorem assign_assign {α : Type} (map : Text → α) (key : Text) (first second : α) :
    assign (assign map key first) key second = assign map key second := by
  funext other
  simp only [assign]
  split <;> rfl

@[simp] theorem assign_same {α : Type} (map : Text → α) (key : Text) : assign map key (map key) = map := by
  funext other
  rw [assign]
  split <;> simp_all

theorem assign_ne {α : Type} (map : Text → α) {key other : Text} (different : other ≠ key) (value : α) :
    assign map key value other = map other := if_neg different

theorem Reads.refl (s : ScriptState) : Reads false false s s :=
  ⟨rfl, rfl, rfl, rfl, by simp, by simp, [], by simp⟩

theorem Reads.unchanged {domain ipcidr : Bool} (marked : domain = true → s.hasDomain s.ruleName = true)
    (marked' : ipcidr = true → s.hasIpcidr s.ruleName = true) : Reads domain ipcidr s s := by
  have whole (known flag : Bool) (set : flag = true → known = true) : (known || flag) = known := by
    cases flag
    · exact Bool.or_false known
    · rw [set rfl]
      rfl
  exact ⟨rfl, rfl, rfl, rfl, by rw [whole _ _ marked, assign_same], by rw [whole _ _ marked', assign_same], [], by simp⟩

theorem Reads.trans {domain ipcidr domain' ipcidr' : Bool} (first : Reads domain ipcidr s s') (second : Reads domain' ipcidr' s' s'') :
    Reads (domain || domain') (ipcidr || ipcidr') s s'' := by
  obtain ⟨added, rules, unnamed⟩ := first.rules
  obtain ⟨more, rules', unnamed'⟩ := second.rules
  refine ⟨second.ruleName.trans first.ruleName, second.groups.trans first.groups, second.urls.trans first.urls,
    second.ruleType.trans first.ruleType, ?_, ?_, added ++ more, by rw [rules', rules, List.append_assoc],
    List.forall_mem_append.mpr ⟨unnamed, unnamed'⟩⟩
  · rw [second.hasDomain, first.hasDomain, first.ruleName]
    simp [Bool.or_assoc]
  · rw [second.hasIpcidr, first.hasIpcidr, first.ruleName]
    simp [Bool.or_assoc]

theorem push_of_rules (off : env.script = false) (s : ScriptState) (rule : Text) : s.push env rule = { s with rules := s.rules ++ [rule] } := by
  simp [ScriptState.push, off]

theorem startsWith_head {text needle : Text} (starts : startsWith text needle = true) : ∀ c ∈ needle.head?, text.head? = some c := by
  obtain ⟨behind, rfl⟩ := List.isPrefixOf_iff_prefix.mp starts
  intro c first
  rw [List.head?_append, first]
  rfl

theorem not_ipcidr_of_domain {line : Text} (domain : isDomainLine line = true) : isIpcidrLine line = false := by
  have first : line.head? = some 'D' := by
    rcases Bool.or_eq_true_iff.mp domain with starts | starts <;> exact startsWith_head starts 'D' rfl
  rw [isIpcidrLine, Bool.or_eq_false_iff]
  constructor <;> refine Bool.eq_false_iff.mpr fun starts => ?_ <;>
    exact absurd (first.symm.trans (startsWith_head starts 'I' rfl)) (by decide)

theorem namedRuleSet_keywordRule {line : Text} (keyword : startsWith line (chars "DOMAIN-KEYWORD,") = true) (group : Text) :
    namedRuleSet (keywordRule group (split line ',')) = none := by
  obtain ⟨behind, rfl⟩ := List.isPrefixOf_iff_prefix.mp keyword
  have cut : chars "DOMAIN-KEYWORD," ++ behind = chars "DOMAIN-KEYWORD" ++ ',' :: behind := by
    have mark : chars "DOMAIN-KEYWORD," = chars "DOMAIN-KEYWORD" ++ [','] := by decide
    rw [mark, List.append_assoc, List.singleton_append]
  rw [cut, split_append_cons (by decide)]
  have written : ∃ rest, keywordRule group (chars "DOMAIN-KEYWORD" :: split behind ',') = chars "DOMAIN-KEYWORD" ++ ',' :: rest := by
    cases split behind ',' with
    | nil => exact ⟨group, rfl⟩
    | cons word rest => exact ⟨_, by simp only [keywordRule, List.append_assoc, List.cons_append]; rfl⟩
  obtain ⟨rest, whole⟩ := written
  rw [whole, namedRuleSet, ruleType_cons (by decide), if_neg (by decide)]

theorem lineStep_reads (off : env.script = false) (group : Text) (s : ScriptState) (flag : Bool) (strLine : Text) :
    Reads ((ruleLine strLine).any isDomainLine) ((ruleLine strLine).any isIpcidrLine) s (lineStep env group (s, flag) strLine).1 := by
  simp only [lineStep, ruleLine]
  generalize (if strLine.getLast? = some '\r' then strLine.dropLast else strLine) = line
  by_cases skipped : isSkipped line = true
  · rw [if_pos skipped, if_pos (Or.inl skipped)]
    exact .refl s
  rw [if_neg skipped]
  by_cases keyword : startsWith line (chars "DOMAIN-KEYWORD,") = true
  · rw [if_pos keyword, if_pos (Or.inr keyword)]
    simp only [keywordStep, off, Bool.false_eq_true, if_false, push_of_rules off]
    exact ⟨rfl, rfl, rfl, rfl, by simp, by simp, _, rfl, by simpa using namedRuleSet_keywordRule keyword group⟩
  rw [if_neg keyword, if_neg (not_or.mpr ⟨skipped, keyword⟩), Option.any_some, Option.any_some, ← isDomainLine, ← isIpcidrLine]
  by_cases domain : isDomainLine line = true
  · rw [domain, not_ipcidr_of_domain domain]
    cases known : s.hasDomain s.ruleName with
    | false => exact ⟨rfl, rfl, rfl, rfl, by simp, by simp, [], by simp⟩
    | true =>
      simp only [Bool.not_true, Bool.false_and, Bool.and_false, Bool.false_eq_true, if_false]
      exact .unchanged (fun _ => known) (by simp)
  · rw [Bool.eq_false_iff.mpr domain]
    simp only [Bool.and_false, Bool.false_eq_true, if_false]
    cases ipcidr : isIpcidrLine line with
    | false =>
      simp only [Bool.and_false, Bool.false_eq_true, if_false]
      exact .refl s
    | true =>
      cases known : s.hasIpcidr s.ruleName with
      | false => exact ⟨rfl, rfl, rfl, rfl, by simp, by simp, [], by simp⟩
      | true =>
        simp only [Bool.not_true, Bool.false_and, Bool.false_eq_true, if_false]
        exact .unchanged (by simp) fun _ => known

theorem foldl_reads (off : env.script = false) (group : Text) (lines : List Text) (s : ScriptState) (flag : Bool) :
    Reads (hasLine isDomainLine lines) (hasLine isIpcidrLine lines) s (lines.foldl (lineStep env group) (s, flag)).1 := by
  induction lines generalizing s flag with
  | nil => exact .refl s
  | cons line lines ih =>
    rw [List.foldl_cons, hasLine, List.any_cons, hasLine, List.any_cons, ← hasLine, ← hasLine]
    exact (lineStep_reads off group s flag line).trans (ih _ (lineStep env group (s, flag) line).2)

end Lines

section Steps

variable {env : ScriptEnv} {before contents : List RulesetSource} {content : RulesetSource} {s s' : ScriptState}

structure RefersTo (added : List Text) (name : Text) (parts : List ProviderPart) : Prop where
  each : ∀ rule ∈ added, ∃ part ∈ parts, Refers rule (name ++ part.suffix)
  all : ∀ part ∈ parts, ∃ rule ∈ added, Refers rule (name ++ part.suffix)

theorem refers_ruleSet (key group tail : Text) : Refers (ruleSet key group ++ tail) key := by
  refine ⟨group ++ tail, ?_⟩
  have kind : chars "RULE-SET," = chars "RULE-SET" ++ [','] := by decide
  simp [ruleSet, kind]

theorem refersTo_single {rule name : Text} {part : ProviderPart} (refers : Refers rule (name ++ part.suffix)) :
    RefersTo [rule] name [part] :=
  ⟨by simpa using refers, by simpa using refers⟩

theorem RefersTo.append {first second : List Text} {name : Text} {parts more : List ProviderPart} (here : RefersTo first name parts)
    (there : RefersTo second name more) : RefersTo (first ++ second) name (parts ++ more) := by
  constructor
  · intro rule among
    rcases List.mem_append.mp among with left | right
    · obtain ⟨part, inside, refers⟩ := here.each rule left
      exact ⟨part, List.mem_append_left _ inside, refers⟩
    · obtain ⟨part, inside, refers⟩ := there.each rule right
      exact ⟨part, List.mem_append_right _ inside, refers⟩
  · intro part among
    rcases List.mem_append.mp among with left | right
    · obtain ⟨rule, inside, refers⟩ := here.all part left
      exact ⟨rule, List.mem_append_left _ inside, refers⟩
    · obtain ⟨rule, inside, refers⟩ := there.all part right
      exact ⟨rule, List.mem_append_right _ inside, refers⟩

theorem references_refer (off : env.script = false) (group : Text) (s : ScriptState) (flag : Bool) :
    ∃ added, references env group s flag = { s with rules := s.rules ++ added } ∧
      RefersTo added s.ruleName (readParts (s.hasDomain s.ruleName) (s.hasIpcidr s.ruleName)) := by
  have domain : RefersTo [ruleSet (domainKey s.ruleName) group] s.ruleName [domainPart] := by
    have refers := refers_ruleSet (domainKey s.ruleName) group []
    rw [List.append_nil] at refers
    exact refersTo_single refers
  have ipcidr (tail : Text) : RefersTo [ruleSet (ipcidrKey s.ruleName) group ++ tail] s.ruleName [ipcidrPart] :=
    refersTo_single (refers_ruleSet (ipcidrKey s.ruleName) group tail)
  have plain : RefersTo [ruleSet s.ruleName group] s.ruleName [plainPart .surge] := by
    have refers := refers_ruleSet s.ruleName group []
    have bare : (plainPart .surge).suffix = [] := rfl
    rw [List.append_nil] at refers
    exact refersTo_single (by rwa [bare, List.append_nil])
  cases hasDomain : s.hasDomain s.ruleName <;> cases hasIpcidr : s.hasIpcidr s.ruleName <;>
    simp only [references, push_of_rules off, hasDomain, hasIpcidr, readParts, if_true, if_false, Bool.false_eq_true, Bool.not_true,
      Bool.not_false, Bool.and_true, Bool.and_false, Bool.and_self, List.append_nil, List.nil_append, List.append_assoc]
  · exact ⟨_, rfl, plain⟩
  · exact ⟨_, rfl, ipcidr _⟩
  · exact ⟨_, rfl, domain⟩
  · exact ⟨_, rfl, domain.append (ipcidr _)⟩

structure Follows (env : ScriptEnv) (before : List RulesetSource) (s : ScriptState) : Prop where
  groups : s.groups = (plan env before).map Prod.fst
  writes : ∀ entry ∈ plan env before, providerWrites s entry.1 = (contentParts env entry.2).map (writeOf entry.1)
  urls : ∀ entry ∈ plan env before, s.urls entry.1 = storedUrl entry.2
  clear : ∀ x ∉ s.groups, s.hasDomain x = false ∧ s.hasIpcidr x = false

theorem providerWrites_congr {x : Text} (domain : s'.hasDomain x = s.hasDomain x) (ipcidr : s'.hasIpcidr x = s.hasIpcidr x)
    (type : s'.ruleType x = s.ruleType x) : providerWrites s' x = providerWrites s x := by
  simp only [providerWrites, domain, ipcidr, type]

theorem Follows.passed (follows : Follows env before s) (none : hasProvider env content = false) (groups : s'.groups = s.groups)
    (domain : s'.hasDomain = s.hasDomain) (ipcidr : s'.hasIpcidr = s.hasIpcidr)
    (same : ∀ x ∈ s.groups, s'.ruleType x = s.ruleType x ∧ s'.urls x = s.urls x) : Follows env (before ++ [content]) s' := by
  have still : plan env (before ++ [content]) = plan env before := by rw [plan_concat, planStep, none]; rfl
  have among {entry : Text × RulesetSource} (there : entry ∈ plan env before) : entry.1 ∈ s.groups :=
    follows.groups ▸ List.mem_map_of_mem there
  refine ⟨by rw [groups, still, follows.groups], ?_, ?_, by rw [groups, domain, ipcidr]; exact follows.clear⟩
  · rw [still]
    intro entry there
    rw [← follows.writes entry there]
    exact providerWrites_congr (congrFun domain _) (congrFun ipcidr _) (same _ (among there)).1
  · rw [still]
    intro entry there
    rw [(same _ (among there)).2, follows.urls entry there]

theorem Follows.joined {name : Text} {domain ipcidr : Bool} (follows : Follows env before s) (gets : hasProvider env content = true)
    (named : name = takeName content.rulePath s.groups) (groups : s'.groups = s.groups ++ [name])
    (hasDomain : s'.hasDomain = assign s.hasDomain name domain) (hasIpcidr : s'.hasIpcidr = assign s.hasIpcidr name ipcidr)
    (ruleType : s'.ruleType = assign s.ruleType name content.ruleType) (urls : s'.urls = assign s.urls name (storedUrl content))
    (writes : providerWrites s' name = (contentParts env content).map (writeOf name)) : Follows env (before ++ [content]) s' := by
  have more : plan env (before ++ [content]) = plan env before ++ [(name, content)] := by
    rw [plan_concat, planStep, if_pos gets, named, follows.groups]
  have other {entry : Text × RulesetSource} (there : entry ∈ plan env before) : entry.1 ≠ name := by
    intro same
    have among : entry.1 ∈ s.groups := follows.groups ▸ List.mem_map_of_mem there
    rw [same, named] at among
    exact takeName_not_mem _ _ among
  refine ⟨by rw [groups, more, follows.groups, List.map_append]; rfl, ?_, ?_, ?_⟩
  · rw [more, List.forall_mem_append]
    refine ⟨fun entry there => ?_, by simpa using writes⟩
    rw [← follows.writes entry there]
    exact providerWrites_congr (by rw [hasDomain, assign_ne _ (other there)]) (by rw [hasIpcidr, assign_ne _ (other there)])
      (by rw [ruleType, assign_ne _ (other there)])
  · rw [more, List.forall_mem_append]
    refine ⟨fun entry there => ?_, by simp [urls]⟩
    rw [urls, assign_ne _ (other there), follows.urls entry there]
  · intro x outside
    rw [groups, List.mem_append, List.mem_singleton, not_or] at outside
    rw [hasDomain, hasIpcidr, assign_ne _ outside.2, assign_ne _ outside.2]
    exact follows.clear x outside.1

structure StepRules (env : ScriptEnv) (content : RulesetSource) (s s' : ScriptState) (added : List Text) : Prop where
  rules : s'.rules = s.rules ++ added
  inline : content.rulePath = [] → added = [inlineRule content]
  made : content.rulePath ≠ [] → ∃ plain refs, added = plain ++ refs ∧ (∀ rule ∈ plain, namedRuleSet rule = none) ∧
    RefersTo refs s'.ruleName (if hasProvider env content then contentParts env content else [])
  named : hasProvider env content = true → s'.ruleName = takeName content.rulePath s.groups

theorem inlineStep_follows (off : env.script = false) (follows : Follows env before s) (inline : content.rulePath = [])
    (done : inlineStep env content s = some s') : Follows env (before ++ [content]) s' ∧ ∃ added, StepRules env content s s' added := by
  have none : hasProvider env content = false := by simp [hasProvider, inline]
  simp only [inlineStep, off, Bool.false_eq_true, if_false, push_of_rules off] at done
  split at done
  · cases done
  · cases done
    exact ⟨follows.passed none rfl rfl rfl fun _ _ => ⟨rfl, rfl⟩, [inlineRule content], rfl, fun _ => rfl, fun path => absurd inline path,
      fun gets => absurd gets (by simp [none])⟩

theorem typedStep_eq (off : env.script = false) {name : Text} (named : name = takeName content.rulePath s.groups)
    (clear : s.hasDomain name = false ∧ s.hasIpcidr name = false) :
    typedStep env content s =
      { s.named content ('*' :: content.rulePath) with
        hasDomain := assign s.hasDomain name (content.ruleType = .clashDomain)
        hasIpcidr := assign s.hasIpcidr name (content.ruleType = .clashIpCidr)
        rules := s.rules ++ [buildClashRuleSetReference name content.ruleGroup content.ruleType content.options]
        groups := s.groups ++ [name] } := by
  have domain : assign s.hasDomain name false = s.hasDomain := clear.1 ▸ assign_same s.hasDomain name
  have ipcidr : assign s.hasIpcidr name false = s.hasIpcidr := clear.2 ▸ assign_same s.hasIpcidr name
  simp only [typedStep, push_of_rules off]
  subst named
  cases type : content.ruleType <;> simp [ScriptState.named, type, domain, ipcidr]

theorem typedStep_follows (off : env.script = false) (follows : Follows env before s) (path : content.rulePath ≠ [])
    (type : isClashType content.ruleType = true) :
    Follows env (before ++ [content]) (typedStep env content s) ∧ ∃ added, StepRules env content s (typedStep env content s) added := by
  have gets : hasProvider env content = true := by simp [hasProvider, path, type]
  have parts : contentParts env content = [plainPart content.ruleType] := if_pos type
  have stored : storedUrl content = '*' :: content.rulePath := if_pos type
  obtain ⟨name, named⟩ : ∃ name, name = takeName content.rulePath s.groups := ⟨_, rfl⟩
  have clear := follows.clear name (named ▸ takeName_not_mem content.rulePath s.groups)
  rw [typedStep_eq off named clear]
  constructor
  · refine follows.joined gets named rfl rfl rfl (by rw [named]; rfl) (by rw [stored, named]; rfl) ?_
    rw [parts]
    simp only [providerWrites, ScriptState.named, ← named, assign_self]
    cases kind : content.ruleType <;> simp_all [plainPart, writeOf, isClashType]
  · have bare : (plainPart content.ruleType).suffix = [] := by cases content.ruleType <;> rfl
    refine ⟨_, rfl, fun inline => absurd inline path, fun _ => ⟨[], _, rfl, by simp, ?_⟩, fun _ => ?_⟩
    · rw [if_pos gets, parts]
      refine refersTo_single ?_
      rw [bare, List.append_nil]
      simp only [ScriptState.named, ← named]
      exact refers_ruleSet name content.ruleGroup _
    · rfl

theorem providerWrites_read {name : Text} (served : isClashType content.ruleType = false) (type : s.ruleType name = content.ruleType) :
    providerWrites s name = (readParts (s.hasDomain name) (s.hasIpcidr name)).map (writeOf name) := by
  have other : s.ruleType name ≠ .clashDomain ∧ s.ruleType name ≠ .clashIpCidr := by
    rw [type]
    constructor <;> intro same <;> simp [isClashType, same] at served
  simp only [providerWrites, readParts, if_pos other.1, if_pos other.2]
  cases s.hasDomain name <;> cases s.hasIpcidr name <;> simp [writeOf, domainPart, ipcidrPart, plainPart, domainKey, ipcidrKey]

theorem readStep_follows (off : env.script = false) (follows : Follows env before s) (path : content.rulePath ≠ [])
    (served : isClashType content.ruleType = false) (known : (env.fileExist content.rulePath || isLink content.rulePath) = true)
    (classical : env.clashClassicalRuleset = false) :
    Follows env (before ++ [content]) (readStep env content (s.named content content.rulePathTyped)) ∧
      ∃ added, StepRules env content s (readStep env content (s.named content content.rulePathTyped)) added := by
  have parts : contentParts env content =
      readParts (hasLine isDomainLine (contentLines env content)) (hasLine isIpcidrLine (contentLines env content)) := by
    simp [contentParts, served, classical]
  have stored : storedUrl content = content.rulePathTyped := by simp [storedUrl, served]
  obtain ⟨name, named⟩ : ∃ name, name = takeName content.rulePath s.groups := ⟨_, rfl⟩
  have fresh : name ∉ s.groups := named ▸ takeName_not_mem content.rulePath s.groups
  have clear := follows.clear name fresh
  by_cases nothing : content.ruleContent = []
  · have none : hasProvider env content = false := by simp [hasProvider, served, classical, nothing]
    rw [readStep, if_pos nothing]
    constructor
    · refine follows.passed none rfl rfl rfl fun x there => ?_
      have other : x ≠ name := fun same => fresh (same ▸ there)
      simp [ScriptState.named, ← named, assign_ne _ other]
    · refine ⟨[], by simp [ScriptState.named], fun inline => absurd inline path, fun _ => ⟨[], [], rfl, by simp, ?_⟩,
        fun gets => absurd gets (by simp [none])⟩
      rw [none]
      exact ⟨by simp, by simp⟩
  · have gets : hasProvider env content = true := by
      rw [Bool.or_eq_true] at known
      simp [hasProvider, path, served, classical, nothing, known]
    have read := foldl_reads off content.ruleGroup (contentLines env content) (s.named content content.rulePathTyped) false
    rw [readStep, if_neg nothing]
    generalize (contentLines env content).foldl (lineStep env content.ruleGroup) (s.named content content.rulePathTyped, false) = last at read
    obtain ⟨middle, flag⟩ := last
    obtain ⟨plain, rules, unnamed⟩ := read.rules
    have ruleName : middle.ruleName = name := read.ruleName.trans named.symm
    have groups : middle.groups = s.groups := read.groups
    have domain := read.hasDomain
    have ipcidr := read.hasIpcidr
    simp only [ScriptState.named, ← named, clear.1, clear.2, Bool.false_or] at domain ipcidr
    obtain ⟨refs, whole, refers⟩ := references_refer off content.ruleGroup middle flag
    rw [ruleName, domain, ipcidr, assign_self, assign_self, ← parts] at refers
    have joins : (references env content.ruleGroup middle flag).join =
        { middle with rules := middle.rules ++ refs, groups := s.groups ++ [name] } := by
      rw [whole, ScriptState.join, if_neg (by simpa [ruleName, groups] using fresh), groups, ruleName]
    simp only [joins]
    constructor
    · refine follows.joined gets named rfl domain ipcidr ?_ ?_ ?_
      · exact read.ruleType.trans (by rw [named]; rfl)
      · exact read.urls.trans (by rw [stored, named]; rfl)
      · have type : middle.ruleType name = content.ruleType := by
          rw [read.ruleType]
          simp [ScriptState.named, named]
        have written := @providerWrites_read content middle name served type
        rw [parts, ← assign_self s.hasDomain name (hasLine isDomainLine _), ← domain,
          ← assign_self s.hasIpcidr name (hasLine isIpcidrLine _), ← ipcidr, ← written]
        rfl
    · refine ⟨plain ++ refs, ?_, fun inline => absurd inline path, fun _ => ⟨plain, refs, rfl, unnamed, ?_⟩, fun _ => ?_⟩
      · rw [rules, List.append_assoc]
        rfl
      · rw [if_pos gets]
        exact ruleName.symm ▸ refers
      · exact ruleName.trans named

theorem servedStep_follows (off : env.script = false) (serves : env.remotePathPrefix ≠ []) (follows : Follows env before s)
    (path : content.rulePath ≠ []) (served : isClashType content.ruleType = false) :
    Follows env (before ++ [content]) (servedStep env content s) ∧ ∃ added, StepRules env content s (servedStep env content s) added := by
  rw [servedStep, if_neg serves]
  by_cases known : (env.fileExist content.rulePath || isLink content.rulePath) = true
  · rw [if_pos (by simpa using known)]
    cases classical : env.clashClassicalRuleset with
    | false =>
      simp only [Bool.false_eq_true, if_false]
      exact readStep_follows off follows path served known classical
    | true =>
      have gets : hasProvider env content = true := by
        rw [Bool.or_eq_true] at known
        simp [hasProvider, path, served, classical, known]
      have parts : contentParts env content = readParts false false := by simp [contentParts, served, classical, readParts]
      have stored : storedUrl content = content.rulePathTyped := by simp [storedUrl, served]
      obtain ⟨name, named⟩ : ∃ name, name = takeName content.rulePath s.groups := ⟨_, rfl⟩
      have clear := follows.clear name (named ▸ takeName_not_mem content.rulePath s.groups)
      simp only [if_true, push_of_rules off]
      constructor
      · refine follows.joined gets named (by rw [named]; rfl) (clear.1 ▸ (assign_same s.hasDomain name).symm)
          (clear.2 ▸ (assign_same s.hasIpcidr name).symm) (by rw [named]; rfl) (by rw [stored, named]; rfl) ?_
        rw [parts]
        refine (providerWrites_read served ?_).trans ?_
        · simp [ScriptState.named, ← named]
        · simp only [ScriptState.named, clear.1, clear.2]
      · refine ⟨_, rfl, fun inline => absurd inline path, fun _ => ⟨[], _, rfl, by simp, ?_⟩, fun _ => rfl⟩
        rw [if_pos gets, parts]
        refine refersTo_single ?_
        have refers := refers_ruleSet (takeName content.rulePath s.groups) content.ruleGroup []
        have bare (key : Text) : key ++ (plainPart .surge).suffix = key := List.append_nil key
        rw [bare]
        rwa [List.append_nil] at refers
  · rw [if_neg (by simpa using known)]
    have none : hasProvider env content = false := by
      simp only [Bool.not_eq_true] at known
      simp [hasProvider, served, known]
    refine ⟨follows.passed none rfl rfl rfl fun _ _ => ⟨rfl, rfl⟩, [], by simp, fun inline => absurd inline path,
      fun _ => ⟨[], [], rfl, by simp, ?_⟩, fun gets => absurd gets (by simp [none])⟩
    rw [none]
    exact ⟨by simp, by simp⟩

theorem contentStep_follows (off : env.script = false) (serves : env.remotePathPrefix ≠ []) (follows : Follows env before s)
    (done : contentStep env s content = some s') :
    Follows env (before ++ [content]) s' ∧ ∃ added, StepRules env content s s' added := by
  rw [contentStep] at done
  split at done
  · rename_i inline
    exact inlineStep_follows off follows inline done
  rename_i path
  split at done
  · rename_i type
    cases done
    exact typedStep_follows off follows path type
  · rename_i served
    cases done
    exact servedStep_follows off serves follows path (by simpa using served)

theorem follows_nil (env : ScriptEnv) (rules : List Text) : Follows env [] { rules := rules } :=
  ⟨rfl, by simp [plan], by simp [plan], fun _ _ => ⟨rfl, rfl⟩⟩

theorem foldlM_follows (off : env.script = false) (serves : env.remotePathPrefix ≠ []) (follows : Follows env before s)
    (done : contents.foldlM (contentStep env) s = some s') : Follows env (before ++ contents) s' := by
  induction contents generalizing before s with
  | nil =>
    cases done
    rwa [List.append_nil]
  | cons content contents ih =>
    rw [List.foldlM_cons] at done
    obtain ⟨middle, stepped, done⟩ := Option.bind_eq_some_iff.mp done
    have last := ih (contentStep_follows off serves follows stepped).1 done
    rwa [List.append_assoc, List.singleton_append] at last

theorem readContents_follows {baseRule : Entries} (off : env.script = false) (serves : env.remotePathPrefix ≠ [])
    (done : readContents env baseRule contents = some s) : Follows env contents s := by
  obtain ⟨original, walked⟩ := readContents_run done
  exact foldlM_follows off serves (follows_nil env original) walked

def plannedWrites (env : ScriptEnv) (contents : List RulesetSource) : List ProviderWrite :=
  (plan env contents).flatMap fun entry => (contentParts env entry.2).map (writeOf entry.1)

theorem Follows.planned (follows : Follows env contents s) : s.writes = plannedWrites env contents := by
  rw [ScriptState.writes, follows.groups, List.flatMap_map]
  exact List.flatMap_congr follows.writes

theorem readContents_split {baseRule : Entries} {after : List RulesetSource}
    (done : readContents env baseRule (before ++ content :: after) = some s) :
    ∃ s₁ s₂, readContents env baseRule before = some s₁ ∧ contentStep env s₁ content = some s₂ := by
  rw [readContents] at done
  simp only [List.foldlM_append, List.foldlM_cons] at done
  split at done
  · rename_i overwrites
    obtain ⟨original, here, done⟩ := Option.bind_eq_some_iff.mp done
    obtain ⟨s₁, walked, done⟩ := Option.bind_eq_some_iff.mp done
    obtain ⟨s₂, stepped, -⟩ := Option.bind_eq_some_iff.mp done
    refine ⟨s₁, s₂, ?_, stepped⟩
    rw [readContents, if_pos overwrites]
    exact Option.bind_eq_some_iff.mpr ⟨original, here, walked⟩
  · rename_i keeps
    obtain ⟨original, here, done⟩ := Option.bind_eq_some_iff.mp done
    obtain ⟨s₁, walked, done⟩ := Option.bind_eq_some_iff.mp done
    obtain ⟨s₂, stepped, -⟩ := Option.bind_eq_some_iff.mp done
    refine ⟨s₁, s₂, ?_, stepped⟩
    rw [readContents, if_neg keeps]
    exact Option.bind_eq_some_iff.mpr ⟨original, here, walked⟩

theorem plan_grows (env : ScriptEnv) (before after : List RulesetSource) : plan env before <+: plan env (before ++ after) := by
  induction after using List.reverseRecOn with
  | nil => rw [List.append_nil]
  | append_singleton after content ih =>
    rw [← List.append_assoc, plan_concat, planStep]
    split
    · exact ih.trans (List.prefix_append _ _)
    · exact ih

theorem mem_plan_of_step (gets : hasProvider env content = true) (after : List RulesetSource) :
    (takeName content.rulePath ((plan env before).map Prod.fst), content) ∈ plan env (before ++ content :: after) := by
  have whole : before ++ content :: after = (before ++ [content]) ++ after := by simp
  rw [whole]
  refine (plan_grows env _ after).subset ?_
  rw [plan_concat, planStep, if_pos gets]
  exact List.mem_append_right _ List.mem_cons_self

theorem step_of_mem_plan {entry : Text × RulesetSource} (there : entry ∈ plan env contents) :
    ∃ before after, contents = before ++ entry.2 :: after ∧ hasProvider env entry.2 = true ∧
      entry.1 = takeName entry.2.rulePath ((plan env before).map Prod.fst) := by
  induction contents using List.reverseRecOn with
  | nil => cases there
  | append_singleton contents content ih =>
    rw [plan_concat, planStep] at there
    have earlier (inside : entry ∈ plan env contents) : ∃ before after, contents ++ [content] = before ++ entry.2 :: after ∧
        hasProvider env entry.2 = true ∧ entry.1 = takeName entry.2.rulePath ((plan env before).map Prod.fst) := by
      obtain ⟨before, after, whole, gets, named⟩ := ih inside
      exact ⟨before, after ++ [content], by rw [whole, List.append_assoc, List.cons_append], gets, named⟩
    split at there
    · rename_i gets
      rcases List.mem_append.mp there with inside | last
      · exact earlier inside
      · obtain rfl := List.mem_singleton.mp last
        exact ⟨contents, [], rfl, gets, rfl⟩
    · exact earlier there

end Steps

end SubConverter.Generator.ClashScript
