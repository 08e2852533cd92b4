import SubConverter.Generator.ExternalRules
import SubConverter.Handler.GroupIds

set_option autoImplicit false

namespace SubConverter.Generator

open Handler (isSpace trimWhitespace startsWith endsWith split isIPv4 toLower toUpper trimOf getLineBreak)

section Comments

def spacedSlash (previous : Char) (position : Nat) : Text → Option Nat
  | '/' :: '/' :: rest => if isSpace previous then some position else spacedSlash '/' (position + 2) rest
  | c :: rest => spacedSlash c (position + 1) rest
  | [] => none

def unquotedSlash (quote : Option Char) (escaped : Bool) (previous : Option Char) (position : Nat) : Text → Option Nat
  | c :: next :: rest =>
    if escaped then unquotedSlash quote false (some c) (position + 1) (next :: rest)
    else if c = '\\' then unquotedSlash quote true (some c) (position + 1) (next :: rest)
    else if quote.isSome then
      unquotedSlash (if quote = some c then none else quote) false (some c) (position + 1) (next :: rest)
    else if c = '\x27' ∨ c = '\x22' then unquotedSlash (some c) false (some c) (position + 1) (next :: rest)
    else if c = '/' ∧ next = '/' ∧ previous.any isSpace then some position
    else unquotedSlash none false (some c) (position + 1) (next :: rest)
  | _ => none

def structuredTypes : List Text :=
  [chars "DOMAIN", chars "DOMAIN-SUFFIX", chars "DOMAIN-KEYWORD", chars "IP-CIDR", chars "IP-CIDR6", chars "IP6-CIDR",
    chars "SRC-IP-CIDR", chars "SRC-IP", chars "IP-SUFFIX", chars "SRC-IP-SUFFIX", chars "GEOIP", chars "SRC-GEOIP",
    chars "GEOSITE", chars "IP-ASN", chars "SRC-IP-ASN", chars "SRC-PORT", chars "DST-PORT", chars "DEST-PORT",
    chars "IN-PORT", chars "PORT", chars "PORT-RANGE", chars "SRC-PORT-RANGE", chars "IP-VERSION", chars "NETWORK",
    chars "PROTOCOL", chars "DSCP", chars "UID", chars "USER-ID", chars "MATCH", chars "FINAL", chars "HOST",
    chars "HOST-SUFFIX", chars "HOST-KEYWORD"]

def trimEnd (text : Text) : Text := (text.reverse.dropWhile isSpace).reverse

def stripAt (line : Text) (rawValue : Bool) : Text :=
  let first := (line.takeWhile isSpace).length
  let value := line.drop first
  if startsWith value ['/', '/'] then []
  else
    match spacedSlash '/' 0 value with
    | none => line
    | some slash =>
      let before := value.take slash
      if !rawValue && trimEnd (before.takeWhile (· ≠ ',')) ∉ structuredTypes then line
      else if '\x22' ∉ before ∧ '\x27' ∉ before ∧ '\\' ∉ before then line.take first ++ trimEnd before
      else
        match unquotedSlash none false none 0 value with
        | none => line
        | some slash => line.take first ++ trimEnd (value.take slash)

def stripRulesetComment (line : Text) (rawValue : Bool) : Text :=
  if (cutAt ['/', '/'] line).isSome then stripAt line rawValue else line

def isRuleComment (line : Text) : Bool :=
  line.head? = some ';' || line.head? = some '#' || startsWith line ['/', '/']

end Comments

section Conversion

inductive RulesetType where
  | surge
  | quanX
  | clashDomain
  | clashIpCidr
  | clashClassical
deriving DecidableEq, Repr

/-- The regular expressions of the converter, read by a library. -/
structure Regexes where
  find (text pattern : Text) : Bool
  replace (text pattern replacement : Text) : Text

-- `strLine` without its ".*" endings, and whether there was one.
def keywordOf (line : Text) : Text × Bool :=
  if endsWith line (chars ".*") ∧ line.length ≠ 0 then ((keywordOf (line.take (line.length - 2))).1, true) else (line, false)
termination_by line.length
decreasing_by simp only [List.length_take]; omega

def domainRule (line : Text) : Text :=
  let (name, keyword) := keywordOf line
  chars "DOMAIN-" ++ (if keyword then chars "KEYWORD," else chars "SUFFIX,") ++
    name.drop (if name.head? = some '.' then 1 else 2)

def payloadLine (line : Text) : Text :=
  let trimmed := trimOf line ' '
  let bare := if trimmed.getLast? = some '\r' then trimmed.dropLast else trimmed
  let line := stripRulesetComment bare true
  if line = [] ∨ isRuleComment line then line
  else
    match cutAt ['/'] line with
    | some (address, _) => (if isIPv4 address then chars "IP-CIDR," else chars "IP-CIDR6,") ++ line
    | none =>
      if line.head? = some '.' ∨ startsWith line ['+', '.'] then domainRule line else chars "DOMAIN," ++ line

variable (regexes : Regexes)

def convertRulesetUncached (content : Text) (type : RulesetType) : Text :=
  if type = .surge then content
  else if regexes.find content (chars "^payload:\\r?\\n") then
    let output := regexes.replace (regexes.replace content (chars "payload:\\r?\\n") [])
      (chars "\\s?^\\s*-\\s+(\x27|\x22?)(.*)\\1$") (chars "\n$2")
    if type = .clashClassical then output
    else (split output (getLineBreak output)).flatMap fun line => payloadLine line ++ ['\n']
  else
    let output := regexes.replace (regexes.replace content (chars "^(?i:host)") (chars "DOMAIN"))
      (chars "^(?i:ip6-cidr)") (chars "IP-CIDR6")
    regexes.replace output
      (chars "^((?i:DOMAIN(?:-(?:SUFFIX|KEYWORD))?|IP-CIDR6?|USER-AGENT),)\\s*?(\\S*?)(?:,(?!no-resolve).*?)(,no-resolve)?$")
      (chars "\\U$1\\E$2$\x7b3:-\x7d")

-- The cache in front keeps what was computed for a content and a type.
def convertRuleset (content : Text) (type : RulesetType) : Text :=
  if type = .surge then content else convertRulesetUncached regexes content type

end Conversion

section Targets

def isClashCommaPayloadRule (ruleType : Text) : Bool :=
  ruleType ∈ [chars "AND", chars "OR", chars "NOT", chars "SUB-RULE", chars "DOMAIN-REGEX", chars "PROCESS-NAME-REGEX",
    chars "PROCESS-PATH-REGEX"]

def appendClashRuleTarget (rule target : Text) (noResolveOnly : Bool) : Text :=
  let line := trimWhitespace rule
  let ruleType := toUpper (trimWhitespace (line.takeWhile (· ≠ ',')))
  if ruleType = chars "FINAL" ∨ ruleType = chars "MATCH" then chars "MATCH," ++ target
  else if ',' ∉ line ∨ isClashCommaPayloadRule ruleType then line ++ ',' :: target
  else
    match split line ',' with
    | type :: payload :: rest =>
      let output := type ++ ',' :: payload ++ ',' :: target
      match rest with
      | [] => output
      | option :: _ =>
        let option := trimWhitespace option
        if !noResolveOnly ∨ option = chars "no-resolve" then output ++ ',' :: option else output
    | _ => line ++ ',' :: target

def keptParts (rule : Text) : List Text :=
  let line := trimWhitespace rule
  let ruleType := toUpper (trimWhitespace (line.takeWhile (· ≠ ',')))
  if ruleType = chars "FINAL" ∨ ruleType = chars "MATCH" then []
  else if ',' ∉ line ∨ isClashCommaPayloadRule ruleType then [line]
  else
    match split line ',' with
    | type :: payload :: rest => type :: payload :: (rest.take 1).map trimWhitespace
    | _ => [line]

structure RulesetOptions where
  noResolve : Bool := false
deriving DecidableEq, Repr

def hasNoResolveOption (rule : Text) : Bool :=
  (rule.splitOn ',').any fun token => toLower (trimAscii token) = chars "no-resolve"

def appendClashIpCidrNoResolve (rule : Text) (type : RulesetType) (options : RulesetOptions) : Text :=
  let ruleType := toUpper (trimAscii (rule.takeWhile (· ≠ ',')))
  if type ≠ .clashIpCidr ∨ options.noResolve = false then rule
  else if ruleType ≠ chars "IP-CIDR" ∧ ruleType ≠ chars "IP-CIDR6" then rule
  else if hasNoResolveOption rule then rule
  else rule ++ chars ",no-resolve"

theorem mem_of_mem_trimWhitespace {c : Char} {text : Text} (there : c ∈ trimWhitespace text) : c ∈ text := by
  have inside := (List.dropWhile_sublist _).mem (List.mem_reverse.mp there)
  exact (List.dropWhile_sublist _).mem (List.mem_reverse.mp inside)

theorem mem_of_mem_trimEnd {c : Char} {text : Text} (there : c ∈ trimEnd text) : c ∈ text :=
  List.mem_reverse.mp ((List.dropWhile_sublist _).mem (List.mem_reverse.mp there))

theorem mem_of_mem_stripRulesetComment {c : Char} {line : Text} {rawValue : Bool}
    (there : c ∈ stripRulesetComment line rawValue) : c ∈ line := by
  have cut : ∀ (first slash : Nat), c ∈ line.take first ++ trimEnd ((line.drop first).take slash) → c ∈ line := by
    intro first slash inside
    rcases List.mem_append.mp inside with inside | inside
    · exact List.mem_of_mem_take inside
    · exact List.mem_of_mem_drop (List.mem_of_mem_take (mem_of_mem_trimEnd inside))
  unfold stripRulesetComment stripAt at there
  dsimp only at there
  split_ifs at there with slashed commented
  next => cases there
  next =>
    split at there
    next => exact there
    next slash found =>
      split_ifs at there with other plain
      next => exact there
      next => exact cut _ _ there
      next =>
        split at there
        next => exact there
        next => exact cut _ _ there
  next => exact there

theorem mem_of_mem_keptParts {c : Char} {rule part : Text} (kept : part ∈ keptParts rule) (there : c ∈ part) : c ∈ rule := by
  apply mem_of_mem_trimWhitespace
  have field : ∀ field ∈ split (trimWhitespace rule) ',', c ∈ field → c ∈ trimWhitespace rule := by
    intro field member inside
    exact mem_of_mem_splitOn (Handler.mem_splitOn_of_mem_split member) inside
  unfold keptParts at kept
  dsimp only at kept
  split_ifs at kept with terminal whole
  next => cases kept
  next => rwa [List.mem_singleton.mp kept] at there
  next =>
    split at kept
    next type payload rest cut =>
      rcases List.mem_cons.mp kept with rfl | kept
      · exact field _ (by simp [cut]) there
      rcases List.mem_cons.mp kept with rfl | kept
      · exact field _ (by simp [cut]) there
      obtain ⟨option, member, rfl⟩ := List.mem_map.mp kept
      exact field option (by simp [cut, List.mem_of_mem_take member]) (mem_of_mem_trimWhitespace there)
    next => rwa [List.mem_singleton.mp kept] at there

theorem newline_mem_appendClashRuleTarget_iff (rule target : Text) :
    '\n' ∈ appendClashRuleTarget rule target false ↔ '\n' ∈ target ∨ ∃ part ∈ keptParts rule, '\n' ∈ part := by
  have terminal : '\n' ∉ chars "MATCH," := by decide
  have comma : '\n' ≠ ',' := by decide
  unfold appendClashRuleTarget keptParts
  dsimp only
  split_ifs with last whole
  next => simp [terminal]
  next => simp [comma, or_comm]
  next =>
    split
    next type payload rest cut =>
      cases rest with
      | nil =>
        simp only [List.mem_append, List.mem_cons, comma, List.take_nil, List.map_nil, List.not_mem_nil, false_or,
          exists_eq_or_imp, exists_eq_left, or_comm]
      | cons option rest =>
        simp only [List.mem_append, List.mem_cons, comma, List.take_succ_cons, List.take_zero, List.map_cons, List.map_nil,
          List.not_mem_nil, false_or, exists_eq_or_imp, exists_eq_left, Bool.not_false, true_or, if_true, or_assoc, or_comm]
    next => simp [comma, or_comm]

theorem newline_mem_appendClashIpCidrNoResolve_iff (rule : Text) (type : RulesetType) (options : RulesetOptions) :
    '\n' ∈ appendClashIpCidrNoResolve rule type options ↔ '\n' ∈ rule := by
  have option : '\n' ∉ chars ",no-resolve" := by decide
  unfold appendClashIpCidrNoResolve
  dsimp only
  split_ifs <;> simp [option]

end Targets

end SubConverter.Generator
