import SubConverter.Generator.ClashEmitters
import SubConverter.Lib.Keyed

set_option autoImplicit false

namespace SubConverter.Generator.SingBox

open Handler (trimWhitespace startsWith split toLower toUpper getLineBreak digitsValue)

section Conditions

def singBoxRuleTypes : List Text :=
  ["DOMAIN", "DOMAIN-SUFFIX", "DOMAIN-KEYWORD", "IP-CIDR", "SRC-IP-CIDR", "GEOIP", "MATCH", "FINAL", "IP-VERSION", "INBOUND", "PROTOCOL",
    "NETWORK", "GEOSITE", "SRC-GEOIP", "DOMAIN-REGEX", "PROCESS-NAME", "PROCESS-PATH", "PACKAGE-NAME", "PORT", "PORT-RANGE", "SRC-PORT",
    "SRC-PORT-RANGE", "USER", "USER-ID"].map chars

inductive ValueKind where
  | string
  | integer
  | boolean
deriving DecidableEq, Repr

def codeStart (c : Char) : Bool := ('a' ≤ c && c ≤ 'z') || c.isDigit

def singBoxRuleSetCodeSafe (value : Text) : Bool :=
  value.head?.any codeStart && value.all fun c => codeStart c || c ∈ ['.', '_', '@', '!', '+', '-']

def singBoxRuleSetTag (family value : Text) : Text := family ++ '-' :: value

-- No sign and no blank is read, and nothing may stand behind the digits.
def parseSingBoxRuleInteger (value : Text) (maximum : Nat) : Option Nat :=
  if value ≠ [] ∧ value.all Char.isDigit ∧ digitsValue value ≤ maximum then some (digitsValue value) else none

def maximumInteger : Nat := 2 ^ 32 - 1

structure Condition where
  field : Text
  kind : ValueKind := .string
  matchRuleSetSource : Bool := false
  value : Text
  -- The family and the code of the rule set that it needs.
  ruleSet : Option (Text × Text) := none
deriving DecidableEq, Repr

-- The types whose value is taken as it is.
def plainFields : List (Text × Text) :=
  [("DOMAIN", "domain"), ("DOMAIN-SUFFIX", "domain_suffix"), ("DOMAIN-KEYWORD", "domain_keyword"), ("DOMAIN-REGEX", "domain_regex"),
    ("IP-CIDR", "ip_cidr"), ("IP-CIDR6", "ip_cidr"), ("SRC-IP-CIDR", "source_ip_cidr"), ("INBOUND", "inbound"), ("PROTOCOL", "protocol"),
    ("NETWORK", "network"), ("PROCESS-NAME", "process_name"), ("PROCESS-PATH", "process_path"), ("PACKAGE-NAME", "package_name"),
    ("PORT-RANGE", "port_range"), ("SRC-PORT-RANGE", "source_port_range"), ("USER", "auth_user")].map fun entry =>
    (chars entry.1, chars entry.2)

-- The types whose value is a number, and the largest one.
def integerFields : List (Text × Text × Nat) :=
  [(chars "PORT", chars "port", 65535), (chars "SRC-PORT", chars "source_port", 65535), (chars "USER-ID", chars "user_id", maximumInteger)]

def singBoxCondition (type value : Text) : Option Condition :=
  if type = chars "IP-VERSION" then
    if value = ['4'] ∨ value = ['6'] then some { field := chars "ip_version", kind := .integer, value := value } else none
  else if type = chars "GEOSITE" then
    if singBoxRuleSetCodeSafe value then
      some { field := chars "rule_set", value := singBoxRuleSetTag (chars "geosite") value, ruleSet := some (chars "geosite", value) }
    else none
  else if type = chars "GEOIP" ∨ type = chars "SRC-GEOIP" then
    let source := decide (type = chars "SRC-GEOIP")
    if value = chars "private" then
      some { field := if source then chars "source_ip_is_private" else chars "ip_is_private", kind := .boolean, value := chars "true" }
    else if singBoxRuleSetCodeSafe value then
      some { field := chars "rule_set", matchRuleSetSource := source, value := singBoxRuleSetTag (chars "geoip") value,
             ruleSet := some (chars "geoip", value) }
    else none
  else
    match integerFields.find? fun entry => entry.1 = type with
    | some (_, field, maximum) =>
      (parseSingBoxRuleInteger value maximum).map fun _ => { field := field, kind := .integer, value := value }
    | none => (plainFields.find? fun entry => entry.1 = type).map fun entry => { field := entry.2, value := value }

end Conditions

section Buckets

structure SingBoxRuleBucket where
  field : Text := []
  kind : ValueKind := .string
  matchRuleSetSource : Bool := false
  values : List Text := []
deriving DecidableEq, Repr

def Condition.key (condition : Condition) : Text :=
  condition.field ++ if condition.matchRuleSetSource then chars ":source" else chars ":destination"

structure Appending where
  buckets : List (Text × SingBoxRuleBucket) := []
  geositeCodes : List Text := []
  geoipCodes : List Text := []
  final : Text := []
deriving DecidableEq, Repr

def insertCode (code : Text) (codes : List Text) : List Text := if code ∈ codes then codes else codes ++ [code]

def Appending.add (s : Appending) (condition : Condition) : Appending :=
  let bucket := (Keyed.find condition.key s.buckets).getD {}
  let values := if condition.value ∈ bucket.values then bucket.values else bucket.values ++ [condition.value]
  { s with
    buckets := Keyed.put condition.key
      ⟨condition.field, condition.kind, condition.matchRuleSetSource, values⟩ s.buckets
    geositeCodes := match condition.ruleSet with
      | some (family, code) => if family = chars "geosite" then insertCode code s.geositeCodes else s.geositeCodes
      | none => s.geositeCodes
    geoipCodes := match condition.ruleSet with
      | some (family, code) => if family = chars "geoip" then insertCode code s.geoipCodes else s.geoipCodes
      | none => s.geoipCodes }

-- The state is given where the rule is accepted.
def appendSingBoxRule (rule ruleGroup : Text) (s : Appending) : Option Appending :=
  match split rule ',' with
  | first :: second :: _ =>
    let type := toUpper (trimEnd first)
    let value := toLower (trimEnd second)
    if type ∉ singBoxRuleTypes then none
    else if type = chars "MATCH" ∨ type = chars "FINAL" then some { s with final := ruleGroup }
    else (singBoxCondition type value).map s.add
  | _ => none

inductive RuleValue where
  | flag
  | number (value : Nat)
  | numbers (values : List Nat)
  | texts (values : List Text)
deriving DecidableEq, Repr

structure RouteRule where
  field : Text
  value : RuleValue
  matchRuleSetSource : Bool
  outbound : Text
deriving DecidableEq, Repr

def parsedInteger (value : Text) : Nat := (parseSingBoxRuleInteger value maximumInteger).getD 0

def SingBoxRuleBucket.value (bucket : SingBoxRuleBucket) : RuleValue :=
  match bucket.kind, bucket.values with
  | .boolean, _ => .flag
  | .integer, [value] => .number (parsedInteger value)
  | .integer, values => .numbers (values.map parsedInteger)
  | .string, values => .texts values

def emitSingBoxRuleBuckets (buckets : List (Text × SingBoxRuleBucket)) (outbound : Text) : List RouteRule :=
  (buckets.insertionSort fun first second => first.1 ≤ second.1).map fun entry =>
    ⟨entry.2.field, entry.2.value, entry.2.matchRuleSetSource, outbound⟩

end Buckets

section Route

variable {β : Type}

structure BaseRule (β : Type) where
  action : Option Text
  body : β

inductive RouteItem (β : Type) where
  | base (rule : BaseRule β)
  | clashMode (mode outbound : Text)
  | route (rule : RouteRule)

structure RuleSet (β : Type) where
  tag : Option Text
  body : β ⊕ Text

structure BaseRoute (β : Type) where
  rules : Option (List (BaseRule β)) := none
  ruleSets : Option (List (RuleSet β)) := none

structure Route (β : Type) where
  rules : List (RouteItem β)
  ruleSets : List (RuleSet β)
  final : Text

def preserveSingBoxBaseActionRule (rule : BaseRule β) : Bool :=
  rule.action.any fun action => action ∈ ["sniff", "hijack-dns", "resolve", "route-options"].map chars

-- A rule set of the program: its type is remote, its format binary, and it is loaded directly.
def appendSingBoxRemoteRuleSet (family : Text) (sets : List (RuleSet β) × List Text) (code : Text) : List (RuleSet β) × List Text :=
  let tag := singBoxRuleSetTag family code
  if tag ∈ sets.2 then sets
  else
    let url := chars "https://raw.githubusercontent.com/SagerNet/sing-" ++ family ++ chars "/rule-set/" ++ tag ++ chars ".srs"
    (sets.1 ++ [⟨some tag, .inr url⟩], sets.2 ++ [tag])

variable (regexes : Regexes) (maxAllowedRules : Nat)

def full (totalRules : Nat) : Bool := maxAllowedRules ≠ 0 && maxAllowedRules < totalRules

def appendLines (ruleGroup : Text) : List Text → Appending → Nat → Appending × Nat
  | [], s, totalRules => (s, totalRules)
  | line :: rest, s, totalRules =>
    if full maxAllowedRules totalRules then (s, totalRules)
    else
      let strLine := trimWhitespace line
      if strLine = [] ∨ isRuleComment strLine then appendLines ruleGroup rest s totalRules
      else
        match appendSingBoxRule (stripRulesetComment strLine false) ruleGroup s with
        | some s => appendLines ruleGroup rest s (totalRules + 1)
        | none => appendLines ruleGroup rest s totalRules

structure Conversion where
  rules : List RouteRule := []
  appending : Appending := {}
  totalRules : Nat := 0

def Conversion.flush (s : Conversion) (ruleGroup : Text) : Conversion :=
  { s with
    rules := s.rules ++ emitSingBoxRuleBuckets s.appending.buckets ruleGroup
    appending := { s.appending with buckets := [] } }

def convertContents : List RulesetContent → Conversion → Conversion
  | [], s => s
  | content :: rest, s =>
    if full maxAllowedRules s.totalRules then s
    else if content.ruleContent = [] then convertContents rest s
    else if startsWith content.ruleContent ['[', ']'] then
      match appendSingBoxRule (content.ruleContent.drop 2) content.ruleGroup s.appending with
      | some appending =>
        convertContents rest (Conversion.flush { s with appending := appending, totalRules := s.totalRules + 1 } content.ruleGroup)
      | none => convertContents rest s
    else
      let converted := convertRuleset regexes content.ruleContent content.ruleType
      let (appending, totalRules) :=
        appendLines maxAllowedRules content.ruleGroup (split converted (getLineBreak converted)) s.appending s.totalRules
      convertContents rest (Conversion.flush { s with appending := appending, totalRules := totalRules } content.ruleGroup)

def inheritedRules (base : BaseRoute β) (overwriteOriginalRules singBoxAddClashModes : Bool) : List (RouteItem β) :=
  let rules := (base.rules.getD []).map RouteItem.base
  let kept := if overwriteOriginalRules then
      ((base.rules.getD []).filter preserveSingBoxBaseActionRule).map RouteItem.base
    else rules
  kept ++ if singBoxAddClashModes then
      [.clashMode (chars "Global") (chars "GLOBAL"), .clashMode (chars "Direct") (chars "DIRECT")]
    else []

def rulesetToSingBox (base : BaseRoute β) (contents : List RulesetContent) (overwriteOriginalRules singBoxAddClashModes : Bool) :
    Route β :=
  let s := convertContents regexes maxAllowedRules contents {}
  let ruleSets := base.ruleSets.getD []
  let sets := (s.appending.geositeCodes.insertionSort (· ≤ ·)).foldl (appendSingBoxRemoteRuleSet (chars "geosite"))
    (ruleSets, ruleSets.filterMap RuleSet.tag)
  { rules := inheritedRules base overwriteOriginalRules singBoxAddClashModes ++ s.rules.map RouteItem.route
    ruleSets := ((s.appending.geoipCodes.insertionSort (· ≤ ·)).foldl (appendSingBoxRemoteRuleSet (chars "geoip")) sets).1
    final := s.appending.final }

end Route

end SubConverter.Generator.SingBox
