import SubConverter.Lib.Results
import SubConverter.Handler.Addresses

set_option autoImplicit false

namespace SubConverter.Generator

open Handler (isSpace toLower startsWith split mem_splitOn_of_mem_split)

section Splitting

def trimAscii (value : Text) : Text := strip isSpace value

def isComment (line : Text) : Bool := startsWith line ['#'] || startsWith line [';'] || startsWith line ['/', '/']

inductive QuoteMark where
  | single
  | double
deriving DecidableEq, Repr

def QuoteMark.char : QuoteMark → Char
  | .single => '\x27'
  | .double => '\x22'

-- A backslash escapes only inside quotes, and no escape is pending where a quote opens.
inductive Quote where
  | none
  | inside (mark : QuoteMark) (escaped : Bool)
deriving DecidableEq, Repr

def Quote.next (mark : QuoteMark) (escaped : Bool) (c : Char) : Quote :=
  if escaped then .inside mark false
  else if c = '\\' then .inside mark true
  else if c = mark.char then .none
  else .inside mark false

structure Level where
  round : Nat := 0
  square : Nat := 0
  brace : Nat := 0
  quote : Quote := .none
deriving DecidableEq, Repr

def closing (depth : Nat) : Option Nat := if depth = 0 then none else some (depth - 1)

def Level.step (level : Level) (c : Char) : Option Level :=
  match level.quote with
  | .inside mark escaped => some { level with quote := .next mark escaped c }
  | .none =>
    if c = '\x27' then some { level with quote := .inside .single false }
    else if c = '\x22' then some { level with quote := .inside .double false }
    else if c = '(' then some { level with round := level.round + 1 }
    else if c = ')' then (closing level.round).map fun depth => { level with round := depth }
    else if c = '[' then some { level with square := level.square + 1 }
    else if c = ']' then (closing level.square).map fun depth => { level with square := depth }
    else if c = '\x7b' then some { level with brace := level.brace + 1 }
    else if c = '\x7d' then (closing level.brace).map fun depth => { level with brace := depth }
    else some level

structure Scan where
  fields : List Text := []
  field : Text := []
  level : Level := {}
deriving DecidableEq, Repr

-- Behind a character inside quotes the level is the outermost one only where that character closes the quote.
def Scan.push (scan : Scan) (c : Char) (level : Level) : Scan :=
  if c = ',' ∧ level = {} then ⟨scan.fields ++ [trimAscii scan.field], [], level⟩
  else ⟨scan.fields, scan.field ++ [c], level⟩

def Scan.run (scan : Scan) : Text → Option Scan
  | [] => some scan
  | c :: rest =>
    match scan.level.step c with
    | none => none
    | some level => (scan.push c level).run rest

def Scan.close (scan : Scan) : Option (List Text) :=
  if scan.level = {} then some (scan.fields ++ [trimAscii scan.field]) else none

def splitTopLevelCommas (rule : Text) : Option (List Text) := (({} : Scan).run rule).bind Scan.close

theorem Scan.run_append (scan : Scan) (first second : Text) :
    scan.run (first ++ second) = (scan.run first).bind fun behind => behind.run second := by
  induction first generalizing scan with
  | nil => rfl
  | cons c rest ih =>
    simp only [List.cons_append, Scan.run]
    cases scan.level.step c with
    | none => rfl
    | some level => exact ih (scan.push c level)

def Scan.behind (scan : Scan) (fields : List Text) : Scan := { scan with fields := fields ++ scan.fields }

theorem Scan.push_behind (scan : Scan) (fields : List Text) (c : Char) (level : Level) :
    (scan.behind fields).push c level = (scan.push c level).behind fields := by
  by_cases top : c = ',' ∧ level = {}
  · simp [Scan.push, Scan.behind, top]
  · simp [Scan.push, Scan.behind, top]

theorem Scan.run_behind (scan : Scan) (fields : List Text) (rule : Text) :
    (scan.behind fields).run rule = (scan.run rule).map fun result => result.behind fields := by
  induction rule generalizing scan with
  | nil => rfl
  | cons c rest ih =>
    have same : (scan.behind fields).level = scan.level := rfl
    simp only [Scan.run, same]
    cases scan.level.step c with
    | none => rfl
    | some level =>
      simp only [Scan.push_behind]
      exact ih (scan.push c level)

theorem Scan.close_behind (scan : Scan) (fields : List Text) :
    (scan.behind fields).close = scan.close.map fun parts => fields ++ parts := by
  by_cases top : scan.level = {}
  · simp [Scan.close, Scan.behind, top]
  · simp [Scan.close, Scan.behind, top]

theorem splitTopLevelCommas_append {rule : Text} {fields : List Text} (balanced : splitTopLevelCommas rule = some fields)
    (tail : Text) : splitTopLevelCommas (rule ++ ',' :: tail) = (splitTopLevelCommas tail).map fun parts => fields ++ parts := by
  obtain ⟨scan, ran, closed⟩ := Option.bind_eq_some_iff.mp balanced
  by_cases top : scan.level = {}
  · have cut : scan.run (',' :: tail) = (({} : Scan).behind fields).run tail := by
      simp only [Scan.close, top, if_true, Option.some.injEq] at closed
      have comma : scan.level.step ',' = some {} := by
        rw [top]
        decide
      have pushed : scan.push ',' {} = ({} : Scan).behind fields := by
        simp [Scan.push, Scan.behind, ← closed]
      simp only [Scan.run, comma, pushed]
    rw [splitTopLevelCommas, Scan.run_append, ran, Option.bind_some, cut, Scan.run_behind, splitTopLevelCommas]
    cases ({} : Scan).run tail with
    | none => rfl
    | some result => exact Scan.close_behind result fields
  · simp [Scan.close, top] at closed

def Level.within (level : Level) : Text → Option Level
  | [] => some level
  | c :: rest => (level.step c).bind fun next => if c = ',' ∧ next = {} then none else next.within rest

theorem Level.within_append (level : Level) (first second : Text) :
    level.within (first ++ second) = (level.within first).bind fun behind => behind.within second := by
  induction first generalizing level with
  | nil => rfl
  | cons c rest ih =>
    simp only [List.cons_append, Level.within]
    cases level.step c with
    | none => rfl
    | some next =>
      by_cases top : c = ',' ∧ next = {}
      · simp [top]
      · simp only [Option.bind_some, top, if_false]
        exact ih next

theorem Scan.run_within {scan : Scan} {text : Text} {level : Level} (inside : scan.level.within text = some level) :
    scan.run text = some ⟨scan.fields, scan.field ++ text, level⟩ := by
  induction text generalizing scan with
  | nil =>
    have same : scan.level = level := Option.some.inj inside
    simp [Scan.run, ← same]
  | cons c rest ih =>
    obtain ⟨next, stepped, inside⟩ := Option.bind_eq_some_iff.mp inside
    by_cases top : c = ',' ∧ next = {}
    · simp [top] at inside
    · simp only [top, if_false] at inside
      have pushed : scan.push c next = ⟨scan.fields, scan.field ++ [c], next⟩ := by simp [Scan.push, top]
      simp only [Scan.run, stepped, pushed]
      rw [ih inside]
      simp

theorem split_of_within {field : Text} (inside : Level.within {} field = some {}) :
    splitTopLevelCommas field = some [trimAscii field] := by
  have ran := @Scan.run_within {} field {} inside
  simp [splitTopLevelCommas, ran, Scan.close]

def levelMarks : List Char := ['\x27', '\x22', '(', ')', '[', ']', '\x7b', '\x7d']

theorem step_other {level : Level} {c : Char} (other : c ∉ levelMarks) : level.step c = some {} ↔ level = {} := by
  obtain ⟨round, square, brace, quote⟩ := level
  cases quote with
  | none =>
    simp only [levelMarks, List.mem_cons, List.not_mem_nil, or_false, not_or] at other
    simp [Level.step, other]
  | inside mark escaped =>
    have differs : c ≠ mark.char := by
      rintro rfl
      cases mark <;> simp [QuoteMark.char, levelMarks] at other
    have still : Quote.next mark escaped c ≠ .none := by
      simp only [Quote.next, differs, if_false]
      split <;> [skip; split] <;> simp
    simp [Level.step, still]

theorem not_mark_of_isSpace {c : Char} (space : isSpace c = true) : c ∉ levelMarks ∧ c ≠ ',' := by
  have listed : (',' :: levelMarks).all fun mark => !isSpace mark := by decide
  have all := List.all_eq_true.mp listed
  constructor
  · intro there
    simpa [space] using all c (List.mem_cons_of_mem _ there)
  · rintro rfl
    simpa [space] using all ',' List.mem_cons_self

theorem within_plain {text : Text} (plain : ∀ c ∈ text, c ∉ levelMarks ∧ c ≠ ',') (level : Level) :
    level.within text = some {} ↔ level = {} := by
  induction text generalizing level with
  | nil => simp [Level.within]
  | cons c rest ih =>
    obtain ⟨other, comma⟩ := plain c List.mem_cons_self
    have behind := ih fun next there => plain next (List.mem_cons_of_mem _ there)
    simp only [Level.within, comma, false_and, if_false]
    rw [← step_other other]
    cases level.step c with
    | none => simp
    | some next => simp [behind]

theorem within_spaces {spaces : Text} (all : ∀ c ∈ spaces, isSpace c) (level : Level) :
    level.within spaces = some {} ↔ level = {} :=
  within_plain (fun c there => not_mark_of_isSpace (all c there)) level

theorem within_trim {field : Text} (inside : Level.within {} field = some {}) : Level.within {} (trimAscii field) = some {} := by
  obtain ⟨front, back, whole, first, last⟩ := strip_spec isSpace field
  rw [whole, List.append_assoc, Level.within_append, (within_spaces first {}).mpr rfl, Option.bind_some,
    Level.within_append] at inside
  obtain ⟨level, kept, ran⟩ := Option.bind_eq_some_iff.mp inside
  rw [trimAscii, kept, (within_spaces last level).mp ran]

def Scan.Clean (scan : Scan) : Prop :=
  Level.within {} scan.field = some scan.level ∧ ∀ field ∈ scan.fields, splitTopLevelCommas field = some [field]

theorem split_trim {field : Text} (inside : Level.within {} field = some {}) :
    splitTopLevelCommas (trimAscii field) = some [trimAscii field] := by
  have again : trimAscii (trimAscii field) = trimAscii field := strip_strip isSpace field
  rw [split_of_within (within_trim inside), again]

theorem Scan.Clean.push {scan : Scan} (clean : scan.Clean) {c : Char} {level : Level} (stepped : scan.level.step c = some level) :
    (scan.push c level).Clean := by
  obtain ⟨inside, fields⟩ := clean
  by_cases top : c = ',' ∧ level = {}
  · obtain ⟨rfl, rfl⟩ := top
    have outermost : scan.level = {} := (step_other (by decide)).mp stepped
    rw [outermost] at inside
    simp only [Scan.push, true_and, if_true]
    refine ⟨rfl, ?_⟩
    intro field there
    rcases List.mem_append.mp there with there | there
    · exact fields field there
    · rw [List.mem_singleton.mp there]
      exact split_trim inside
  · simp only [Scan.push, top, if_false]
    refine ⟨?_, fields⟩
    rw [Level.within_append, inside]
    simp [Level.within, stepped, top]

theorem Scan.Clean.run {scan result : Scan} {rule : Text} (clean : scan.Clean) (ran : scan.run rule = some result) :
    result.Clean := by
  induction rule generalizing scan with
  | nil => exact Option.some.inj ran ▸ clean
  | cons c rest ih =>
    simp only [Scan.run] at ran
    cases stepped : scan.level.step c with
    | none => simp [stepped] at ran
    | some level =>
      simp only [stepped] at ran
      exact ih (clean.push stepped) ran

theorem split_field {rule field : Text} {fields : List Text} (balanced : splitTopLevelCommas rule = some fields)
    (there : field ∈ fields) : splitTopLevelCommas field = some [field] := by
  obtain ⟨scan, ran, closed⟩ := Option.bind_eq_some_iff.mp balanced
  have start : Scan.Clean {} := ⟨rfl, by simp⟩
  obtain ⟨inside, clean⟩ := start.run ran
  by_cases top : scan.level = {}
  · simp only [Scan.close, top, if_true, Option.some.injEq] at closed
    rw [← closed] at there
    rcases List.mem_append.mp there with there | there
    · exact clean field there
    · rw [List.mem_singleton.mp there]
      exact split_trim (top ▸ inside)
  · simp [Scan.close, top] at closed

example : splitTopLevelCommas (chars "AND,((DOMAIN,a),(NETWORK,udp)), G") =
    some [chars "AND", chars "((DOMAIN,a),(NETWORK,udp))", ['G']] := by decide

end Splitting

section Parsing

def clashRuleTypes : List Text :=
  [chars "DOMAIN", chars "DOMAIN-SUFFIX", chars "DOMAIN-KEYWORD", chars "IP-CIDR", chars "SRC-IP-CIDR", chars "GEOIP",
    chars "MATCH", chars "FINAL", chars "IP-CIDR6", chars "SRC-PORT", chars "DST-PORT", chars "PROCESS-NAME",
    chars "DOMAIN-REGEX", chars "GEOSITE", chars "IP-SUFFIX", chars "IP-ASN", chars "SRC-GEOIP", chars "SRC-IP-ASN",
    chars "SRC-IP-SUFFIX", chars "IN-PORT", chars "IN-TYPE", chars "IN-USER", chars "IN-NAME",
    chars "PROCESS-PATH-REGEX", chars "PROCESS-PATH", chars "PROCESS-NAME-REGEX", chars "UID", chars "NETWORK",
    chars "DSCP", chars "SUB-RULE", chars "RULE-SET", chars "AND", chars "OR", chars "NOT"]

def locationError (sourceIdentifier location english chinese : Text) : Text :=
  chars "Invalid external Clash rule from " ++ sourceIdentifier ++ chars " (" ++ location ++ chars "): " ++ english ++
    chars ".\n来自 " ++ sourceIdentifier ++ chars "（" ++ location ++ chars "）的外部 Clash 规则无效：" ++ chinese ++ chars "。"

def targetIndex (fields : List Text) : Nat :=
  if 4 ≤ fields.length ∧ toLower (fields.getLastD []) = chars "no-resolve" then fields.length - 2 else fields.length - 1

def validateRule (rule sourceIdentifier location : Text) (allowedRuleTypes : List Text) (requireTarget : Bool) :
    Except Text Unit :=
  let error english chinese : Except Text Unit := .error (locationError sourceIdentifier location english chinese)
  match splitTopLevelCommas rule with
  | none => error (chars "unbalanced brackets or quotes") (chars "括号或引号不匹配")
  | some fields =>
    let type := fields.headD []
    if type ∉ allowedRuleTypes then
      error (chars "unknown rule type \x27" ++ type ++ chars "\x27") (chars "未知规则类型 \x27" ++ type ++ chars "\x27")
    else if type = chars "MATCH" ∨ type = chars "FINAL" then
      error (type ++ chars " rules are not allowed") (chars "不允许导入 " ++ type ++ chars " 规则")
    else if fields.length < 2 ∨ fields.getD 1 [] = [] then
      error (chars "matching content is missing") (chars "缺少匹配内容")
    else if !requireTarget then .ok ()
    else if fields.length < 3 then error (chars "target policy is missing") (chars "缺少目标策略")
    else if fields.getD (targetIndex fields) [] = [] then error (chars "target policy is empty") (chars "目标策略为空")
    else .ok ()

structure Valid (allowedRuleTypes : List Text) (requireTarget : Bool) (fields : List Text) : Prop where
  type : fields.headD [] ∈ allowedRuleTypes
  notTerminal : ¬(fields.headD [] = chars "MATCH" ∨ fields.headD [] = chars "FINAL")
  payload : ¬(fields.length < 2 ∨ fields.getD 1 [] = [])
  target : requireTarget = true → 3 ≤ fields.length ∧ fields.getD (targetIndex fields) [] ≠ []

def Accepted (allowedRuleTypes : List Text) (requireTarget : Bool) (rule : Text) : Prop :=
  ∃ fields, splitTopLevelCommas rule = some fields ∧ Valid allowedRuleTypes requireTarget fields

theorem validateRule_eq_ok_iff {rule sourceIdentifier location : Text} {allowedRuleTypes : List Text} {requireTarget : Bool} :
    validateRule rule sourceIdentifier location allowedRuleTypes requireTarget = .ok () ↔
      Accepted allowedRuleTypes requireTarget rule := by
  unfold validateRule Accepted
  cases splitTopLevelCommas rule with
  | none => simp
  | some fields =>
    simp only [Option.some.injEq, exists_eq_left', guard_eq_ok_iff, Decidable.not_not]
    cases requireTarget with
    | false =>
      simp only [Bool.not_false, if_true, and_true]
      constructor
      · rintro ⟨type, terminal, payload⟩
        exact ⟨type, terminal, payload, by simp⟩
      · rintro ⟨type, terminal, payload, -⟩
        exact ⟨type, terminal, payload⟩
    | true =>
      simp only [Bool.not_true, Bool.false_eq_true, if_false, guard_eq_ok_iff, Nat.not_lt, and_true]
      constructor
      · rintro ⟨type, terminal, payload, target⟩
        exact ⟨type, terminal, payload, fun _ => target⟩
      · rintro ⟨type, terminal, payload, target⟩
        exact ⟨type, terminal, payload, target rfl⟩

-- A candidate stands with the location that its error names.
def parseRuleList (sourceIdentifier : Text) (allowedRuleTypes : List Text) (requireTarget : Bool) :
    List (Text × Text) → Except Text (List Text)
  | [] => .ok []
  | (candidate, location) :: rest =>
    let rule := trimAscii candidate
    if rule = [] ∨ isComment rule then parseRuleList sourceIdentifier allowedRuleTypes requireTarget rest
    else
      match validateRule rule sourceIdentifier location allowedRuleTypes requireTarget with
      | .error error => .error error
      | .ok () => (parseRuleList sourceIdentifier allowedRuleTypes requireTarget rest).map (rule :: ·)

def keptRules (candidates : List (Text × Text)) : List Text :=
  (candidates.map fun candidate => trimAscii candidate.1).filter fun rule => rule ≠ [] && !isComment rule

theorem parseRuleList_eq_ok_iff {sourceIdentifier : Text} {allowedRuleTypes : List Text} {requireTarget : Bool}
    {candidates : List (Text × Text)} {rules : List Text} :
    parseRuleList sourceIdentifier allowedRuleTypes requireTarget candidates = .ok rules ↔
      rules = keptRules candidates ∧ ∀ rule ∈ rules, Accepted allowedRuleTypes requireTarget rule := by
  induction candidates generalizing rules with
  | nil =>
    simp only [parseRuleList, keptRules, List.map_nil, List.filter_nil, Except.ok.injEq]
    constructor
    · rintro rfl
      simp
    · exact fun same => same.1.symm
  | cons candidate rest ih =>
    obtain ⟨text, location⟩ := candidate
    by_cases skipped : trimAscii text = [] ∨ isComment (trimAscii text)
    · have same : keptRules ((text, location) :: rest) = keptRules rest := by
        unfold keptRules
        rw [List.map_cons, List.filter_cons_of_neg]
        rcases skipped with blank | comment
        · simp [blank]
        · simp [comment]
      simp only [parseRuleList, skipped, if_true, ih, same]
    · have same : keptRules ((text, location) :: rest) = trimAscii text :: keptRules rest := by
        unfold keptRules
        rw [List.map_cons, List.filter_cons_of_pos]
        simpa using skipped
      simp only [parseRuleList, skipped, if_false, same]
      cases checked : validateRule (trimAscii text) sourceIdentifier location allowedRuleTypes requireTarget with
      | error error =>
        simp only [reduceCtorEq, false_iff, not_and]
        rintro rfl all
        have passed : validateRule (trimAscii text) sourceIdentifier location allowedRuleTypes requireTarget = .ok () :=
          validateRule_eq_ok_iff.mpr (all _ List.mem_cons_self)
        simp [checked] at passed
      | ok _ =>
        have passed := validateRule_eq_ok_iff.mp checked
        rw [map_eq_ok_iff]
        constructor
        · rintro ⟨tail, parsed, rfl⟩
          obtain ⟨rfl, all⟩ := ih.mp parsed
          exact ⟨rfl, List.forall_mem_cons.mpr ⟨passed, all⟩⟩
        · rintro ⟨rfl, all⟩
          exact ⟨keptRules rest, ih.mpr ⟨rfl, (List.forall_mem_cons.mp all).2⟩, rfl⟩

/-- What the YAML library makes of a text: an exception, a mapping or something else. -/
inductive YamlDocument where
  | broken
  /-- Whether there is a `payload` key, and the sequence under `rules` with its scalars. -/
  | map (payload : Bool) (rules : Option (List (Option Text)))
  | other
deriving DecidableEq, Repr

def YamlDocument.isMap : YamlDocument → Bool
  | .map _ _ => true
  | _ => false

def yamlCandidates (sourceIdentifier : Text) : List (Option Text) → Nat → Except Text (List (Text × Text))
  | [], _ => .ok []
  | some scalar :: rest, i =>
    (yamlCandidates sourceIdentifier rest (i + 1)).map ((scalar, chars "rules[" ++ decimal i ++ chars "]") :: ·)
  | none :: _, i =>
    .error (chars "Invalid external rule source " ++ sourceIdentifier ++ chars ": rules[" ++ decimal i ++
      chars "] must be a string.\n外部规则来源 " ++ sourceIdentifier ++ chars " 无效：rules[" ++ decimal i ++
      chars "] 必须是字符串。")

theorem yamlCandidates_mem {sourceIdentifier : Text} {nodes : List (Option Text)} {i : Nat} {candidates : List (Text × Text)}
    (read : yamlCandidates sourceIdentifier nodes i = .ok candidates) : ∀ candidate ∈ candidates, some candidate.1 ∈ nodes := by
  induction nodes generalizing i candidates with
  | nil => simp [← Except.ok.inj read]
  | cons node rest ih =>
    cases node with
    | none => simp [yamlCandidates] at read
    | some scalar =>
      simp only [yamlCandidates] at read
      obtain ⟨others, tail, rfl⟩ := map_eq_ok_iff.mp read
      rw [List.forall_mem_cons]
      exact ⟨List.mem_cons_self, fun candidate there => List.mem_cons_of_mem _ (ih tail candidate there)⟩

-- std::getline, without a carriage return at the end of a line.
def contentLines (content : Text) : List Text :=
  (split content '\n').map fun line => if line.getLast? = some '\r' then line.dropLast else line

def lineCandidates (content : Text) : List (Text × Text) :=
  (contentLines content).zipIdx.map fun (line, i) => (line, chars "line " ++ decimal (i + 1))

variable (load : Text → YamlDocument)

def parseExternalClashRules (content sourceIdentifier : Text) (allowedRuleTypes : List Text) (requireTarget : Bool) :
    Except Text (List Text) :=
  if trimAscii content = [] then
    .error (chars "External rule source " ++ sourceIdentifier ++ chars " returned empty content.\n外部规则来源 " ++
      sourceIdentifier ++ chars " 返回了空内容。")
  else
    match load content with
    | .map true _ =>
      .error (chars "Invalid external rule source " ++ sourceIdentifier ++
        chars ": YAML payload: format is not supported; use a root rules: sequence.\n外部规则来源 " ++ sourceIdentifier ++
        chars " 无效：不支持 YAML payload: 格式，请使用根节点 rules: 数组。")
    | .map false none =>
      .error (chars "Invalid external rule source " ++ sourceIdentifier ++
        chars ": YAML root must contain a rules: sequence.\n外部规则来源 " ++ sourceIdentifier ++
        chars " 无效：YAML 根节点必须包含 rules: 数组。")
    | .map false (some nodes) => do
      let candidates ← yamlCandidates sourceIdentifier nodes 0
      parseRuleList sourceIdentifier allowedRuleTypes requireTarget candidates
    | _ => parseRuleList sourceIdentifier allowedRuleTypes requireTarget (lineCandidates content)

theorem parseExternalClashRules_lines {content sourceIdentifier : Text} {allowedRuleTypes : List Text} {requireTarget : Bool}
    {rules : List Text} (plain : (load content).isMap = false) :
    parseExternalClashRules load content sourceIdentifier allowedRuleTypes requireTarget = .ok rules ↔
      trimAscii content ≠ [] ∧ rules = keptRules (lineCandidates content) ∧
        ∀ rule ∈ rules, Accepted allowedRuleTypes requireTarget rule := by
  unfold parseExternalClashRules
  rw [guard_eq_ok_iff]
  apply and_congr_right
  intro present
  cases read : load content with
  | broken => exact parseRuleList_eq_ok_iff
  | map payload rules => simp [read, YamlDocument.isMap] at plain
  | other => exact parseRuleList_eq_ok_iff

theorem parseExternalClashRules_accepted {content sourceIdentifier : Text} {allowedRuleTypes : List Text}
    {requireTarget : Bool} {rules : List Text}
    (parsed : parseExternalClashRules load content sourceIdentifier allowedRuleTypes requireTarget = .ok rules) :
    ∃ candidates, rules = keptRules candidates ∧ (∀ rule ∈ rules, Accepted allowedRuleTypes requireTarget rule) ∧
      ((load content).isMap → ∃ nodes, load content = .map false (some nodes) ∧
        ∀ candidate ∈ candidates, some candidate.1 ∈ nodes) := by
  unfold parseExternalClashRules at parsed
  obtain ⟨present, parsed⟩ := guard_eq_ok_iff.mp parsed
  cases read : load content with
  | broken =>
    simp only [read] at parsed
    obtain ⟨same, accepted⟩ := parseRuleList_eq_ok_iff.mp parsed
    exact ⟨_, same, accepted, by simp [YamlDocument.isMap]⟩
  | other =>
    simp only [read] at parsed
    obtain ⟨same, accepted⟩ := parseRuleList_eq_ok_iff.mp parsed
    exact ⟨_, same, accepted, by simp [YamlDocument.isMap]⟩
  | map payload nodes =>
    rcases payload with _ | _ <;> rcases nodes with _ | nodes
    case false.some =>
      simp only [read] at parsed
      obtain ⟨candidates, found, parsed⟩ := bind_eq_ok_iff.mp parsed
      obtain ⟨same, accepted⟩ := parseRuleList_eq_ok_iff.mp parsed
      exact ⟨candidates, same, accepted, fun _ => ⟨nodes, rfl, yamlCandidates_mem found⟩⟩
    all_goals simp [read] at parsed

theorem mem_keptRules {candidates : List (Text × Text)} {rule : Text} (there : rule ∈ keptRules candidates) :
    (∃ candidate ∈ candidates, trimAscii candidate.1 = rule) ∧ rule ≠ [] ∧ isComment rule = false := by
  obtain ⟨listed, kept⟩ := List.mem_filter.mp there
  obtain ⟨candidate, among, same⟩ := List.mem_map.mp listed
  exact ⟨⟨candidate, among, same⟩, by simpa using kept⟩

theorem mem_trimAscii {text : Text} {c : Char} (there : c ∈ trimAscii text) : c ∈ text := by
  obtain ⟨front, back, whole, -, -⟩ := strip_spec isSpace text
  rw [whole]
  exact List.mem_append_left _ (List.mem_append_right _ there)

theorem newline_not_mem_lines {content line : Text} (there : line ∈ contentLines content) : '\n' ∉ line := by
  obtain ⟨part, among, rfl⟩ := List.mem_map.mp there
  have absent : '\n' ∉ part := not_mem_of_mem_splitOn (mem_splitOn_of_mem_split among)
  split
  · exact fun inside => absent (List.mem_of_mem_dropLast inside)
  · exact absent

theorem keptRules_line {line : Text} (trimmed : trimAscii line = line) (present : line ≠ []) (single : '\n' ∉ line)
    (rule : isComment line = false) : keptRules (lineCandidates line) = [line] := by
  have last : line.getLast? ≠ some '\r' := by
    intro carriage
    have ends := (strip_ends isSpace line).2 '\r'
    rw [show strip isSpace line = line from trimmed] at ends
    exact absurd (ends carriage) (by decide)
  have uncut : contentLines line = [line] := by
    have parts : line.splitOn '\n' = [line] := List.splitOn_eq_singleton single
    simp [contentLines, split, parts, present, last]
  simp [lineCandidates, uncut, keptRules, trimmed, present, rule]

end Parsing

section Merging

def isTerminalRule (rule : Text) : Bool :=
  let type := trimAscii (rule.takeWhile (· ≠ ','))
  type = chars "MATCH" || type = chars "FINAL"

def splitAtFirstTerminal (rules : List Text) : List Text × List Text := rules.span fun rule => !isTerminalRule rule

def mergeClashRules (userPrepend prepend original generated append : List Text) : List Text :=
  let (original, originalTerminal) := splitAtFirstTerminal original
  let (generated, generatedTerminal) := splitAtFirstTerminal generated
  userPrepend ++ prepend ++ original ++ generated ++ append ++ originalTerminal ++ generatedTerminal

end Merging

section Targets

/-- The YAML library: no document is one of its own scalars, which are written out within it. -/
structure Yaml where
  load : Text → YamlDocument
  within : ∀ {document : Text} {payload : Bool} {nodes : List (Option Text)}, load document = .map payload (some nodes) →
    ∀ {scalar : Text}, some scalar ∈ nodes → trimAscii scalar ≠ trimAscii document

variable {yaml : Yaml} {rule line group sourceIdentifier : Text} {requireTarget : Bool} {allowedRuleTypes : List Text}

theorem parse_line_iff (trimmed : trimAscii line = line) :
    parseExternalClashRules yaml.load line sourceIdentifier allowedRuleTypes requireTarget = .ok [line] ↔
      (yaml.load line).isMap = false ∧ '\n' ∉ line ∧ line ≠ [] ∧ isComment line = false ∧
        Accepted allowedRuleTypes requireTarget line := by
  constructor
  · intro parsed
    obtain ⟨candidates, kept, accepted, document⟩ := parseExternalClashRules_accepted yaml.load parsed
    obtain ⟨⟨candidate, among, same⟩, present, notComment⟩ := mem_keptRules (kept ▸ List.mem_singleton_self line)
    have plain : (yaml.load line).isMap = false := by
      by_contra isMap
      obtain ⟨nodes, read, scalars⟩ := document (by simpa using isMap)
      exact yaml.within read (scalars candidate among) (same.trans trimmed.symm)
    obtain ⟨-, kept, -⟩ := (parseExternalClashRules_lines yaml.load plain).mp parsed
    obtain ⟨⟨candidate, among, same⟩, -⟩ := mem_keptRules (kept ▸ List.mem_singleton_self line)
    refine ⟨plain, ?_, present, notComment, accepted line (List.mem_singleton_self line)⟩
    intro there
    obtain ⟨⟨content, i⟩, listed, rfl⟩ := List.mem_map.mp among
    rw [← same] at there
    exact newline_not_mem_lines (List.fst_mem_of_mem_zipIdx listed) (mem_trimAscii there)
  · rintro ⟨plain, single, present, notComment, accepted⟩
    rw [parseExternalClashRules_lines yaml.load plain, keptRules_line trimmed present single notComment, trimmed]
    exact ⟨present, rfl, by simpa using accepted⟩

structure Right (yaml : Yaml) (group rule line : Text) : Prop where
  fields : ∃ parts ruleParts, splitTopLevelCommas line = some parts ∧ splitTopLevelCommas rule = some ruleParts ∧
    parts.take 2 = ruleParts.take 2 ∧ parts[2]? = some group
  accepted : ∀ sourceIdentifier, parseExternalClashRules yaml.load line sourceIdentifier clashRuleTypes true = .ok [line]

structure Completable (yaml : Yaml) (group rule : Text) : Prop where
  oneLine : '\n' ∉ rule ∧ '\n' ∉ group
  notMap : (yaml.load (rule ++ ',' :: group)).isMap = false
  single : splitTopLevelCommas group = some [group]
  -- The rule ends behind its payload, or the group is its policy already.
  bare : ∀ fields, splitTopLevelCommas rule = some fields → fields.length = 2 ∨
    (fields[2]? = some group ∧ (toLower group = chars "no-resolve" → fields.getLast? ≠ some []))

theorem targetIndex_concat (fields : List Text) (group : Text) :
    targetIndex (fields ++ [group]) =
      if 3 ≤ fields.length ∧ toLower group = chars "no-resolve" then fields.length - 1 else fields.length := by
  simp [targetIndex]

theorem valid_concat_iff {fields : List Text} (valid : Valid allowedRuleTypes false fields) (named : group ≠ []) :
    Valid allowedRuleTypes true (fields ++ [group]) ↔
      (3 ≤ fields.length → toLower group = chars "no-resolve" → fields.getLast? ≠ some []) := by
  obtain ⟨type, terminal, payload, -⟩ := valid
  obtain ⟨long, present⟩ := not_or.mp payload
  rw [Nat.not_lt] at long
  have head : (fields ++ [group]).headD [] = fields.headD [] := by
    cases fields with
    | nil => simp at long
    | cons => rfl
  have second : (fields ++ [group]).getD 1 [] = fields.getD 1 [] := by
    rw [List.getD_eq_getElem?_getD, List.getElem?_append_left (by omega), List.getD_eq_getElem?_getD]
  have target : (fields ++ [group]).getD (targetIndex (fields ++ [group])) [] ≠ [] ↔
      (3 ≤ fields.length → toLower group = chars "no-resolve" → fields.getLast? ≠ some []) := by
    rw [targetIndex_concat]
    by_cases option : 3 ≤ fields.length ∧ toLower group = chars "no-resolve"
    · have filled : fields ≠ [] := List.ne_nil_of_length_pos (by omega)
      obtain ⟨last, found⟩ := Option.ne_none_iff_exists'.mp (mt List.getLast?_eq_none_iff.mp filled)
      rw [if_pos option, List.getD_eq_getElem?_getD, List.getElem?_append_left (by omega), ← List.getLast?_eq_getElem?, found]
      simp [option]
    · have group_there : (fields ++ [group]).getD fields.length [] = group := by simp
      rw [if_neg option, group_there]
      exact iff_of_true named fun more same => absurd ⟨more, same⟩ option
  constructor
  · intro valid
    exact target.mp (valid.target rfl).2
  · intro last
    refine ⟨head ▸ type, head ▸ terminal, ?_, fun _ => ⟨?_, target.mpr last⟩⟩
    · rw [second, List.length_append]
      exact fun wrong => wrong.elim (fun short => by omega) present
    · rw [List.length_append, List.length_singleton]
      omega

theorem isComment_append {tail : Text} (present : rule ≠ []) (notComment : isComment rule = false) :
    isComment (rule ++ ',' :: tail) = false := by
  cases rule with
  | nil => exact absurd rfl present
  | cons first rest =>
    cases rest with
    | nil => simp_all [isComment, startsWith, List.isPrefixOf]
    | cons => simpa [isComment, startsWith, List.isPrefixOf] using notComment

theorem trimAscii_append (trimmed : trimAscii rule = rule) (present : rule ≠ []) (groupTrimmed : trimAscii group = group)
    (named : group ≠ []) : trimAscii (rule ++ ',' :: group) = rule ++ ',' :: group := by
  apply strip_eq_self
  · intro c there
    apply (strip_ends isSpace rule).1 c
    rw [show strip isSpace rule = rule from trimmed]
    rwa [List.head?_append_of_ne_nil _ present] at there
  · intro c there
    apply (strip_ends isSpace group).2 c
    rw [show strip isSpace group = group from groupTrimmed]
    rwa [List.getLast?_append_of_ne_nil _ (by simp), List.getLast?_cons_of_ne_nil named] at there

theorem right_iff_completable (trimmed : trimAscii rule = rule) (present : rule ≠ []) (notComment : isComment rule = false)
    (accepted : Accepted clashRuleTypes false rule) (groupTrimmed : trimAscii group = group) (named : group ≠ []) :
    Right yaml group rule (rule ++ ',' :: group) ↔ Completable yaml group rule := by
  obtain ⟨fields, balanced, valid⟩ := accepted
  have long : 2 ≤ fields.length := Nat.not_lt.mp (not_or.mp valid.payload).1
  have completed := trimAscii_append trimmed present groupTrimmed named
  have joined := splitTopLevelCommas_append balanced group
  constructor
  · rintro ⟨⟨parts, ruleParts, cut, ruleCut, -, third⟩, parsed⟩
    obtain ⟨plain, single, -, -, fields', cut', valid'⟩ := (parse_line_iff completed).mp (parsed [])
    have alone : splitTopLevelCommas group = some [group] := split_field cut (List.mem_of_getElem? third)
    rw [alone, Option.map_some] at joined
    obtain rfl : parts = fields ++ [group] := Option.some.inj (cut.symm.trans joined)
    obtain rfl : fields' = fields ++ [group] := Option.some.inj (cut'.symm.trans joined)
    refine ⟨by simpa using single, plain, alone, ?_⟩
    intro fields' again
    obtain rfl : fields' = fields := Option.some.inj (again.symm.trans balanced)
    by_cases bare : fields'.length = 2
    · exact .inl bare
    · have more : 3 ≤ fields'.length := by omega
      rw [List.getElem?_append_left (by omega)] at third
      exact .inr ⟨third, (valid_concat_iff valid named).mp valid' more⟩
  · rintro ⟨⟨single, groupSingle⟩, plain, alone, bare⟩
    rw [alone, Option.map_some] at joined
    have valid' : Valid clashRuleTypes true (fields ++ [group]) := by
      apply (valid_concat_iff valid named).mpr
      intro more option
      rcases bare fields balanced with short | ⟨-, last⟩
      · omega
      · exact last option
    refine ⟨⟨_, fields, joined, balanced, by simp [List.take_append_of_le_length long], ?_⟩, fun sourceIdentifier => ?_⟩
    · rcases bare fields balanced with short | ⟨third, -⟩
      · simp [← short]
      · obtain ⟨inside, -⟩ := List.getElem?_eq_some_iff.mp third
        rw [List.getElem?_append_left inside, third]
    · apply (parse_line_iff completed).mpr
      exact ⟨plain, by simp [single, groupSingle], by simp, isComment_append present notComment, _, joined, valid'⟩

end Targets

end SubConverter.Generator
