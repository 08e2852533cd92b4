import SubConverter.Generator.StashProviders
import SubConverter.Generator.SurgeRules
import SubConverter.Handler.TaggedLink
import SubConverter.Utils.Base64

set_option autoImplicit false

namespace SubConverter.Generator.ClashScript

open Handler (startsWith split getLineBreak isLink urlDecode toLower trim)

section Literals

def escapeChar (c : Char) : Text :=
  if c = '\\' then ['\\', '\\']
  else if c = '"' then ['\\', '"']
  else if c = '\'' then ['\\', '\'']
  else if c = '\n' then ['\\', 'n']
  else if c = '\r' then ['\\', 'r']
  else if c = '\t' then ['\\', 't']
  else if c.toNat < 0x20 then ['\\', 'x', hexDigits.getD (c.toNat >>> 4) '0', hexDigits.getD (c.toNat &&& 0x0f) '0']
  else [c]

def pythonStringEscape (value : Text) : Text := value.flatMap escapeChar

def pythonStringLiteral (value : Text) : Text := '"' :: (pythonStringEscape value ++ ['"'])

end Literals

section FileNames

def rfind (text : Text) (c : Char) : Option Nat := (text.reverse.idxOf? c).map fun behind => text.length - 1 - behind

-- Without a separator the first character is left out, and a count below zero stands for the rest.
def findFileName (path : Text) : Text :=
  let pos := ((rfind path '/').or (rfind path '\\')).getD 0
  let pos2 := ((rfind path '.').filter fun dot => pos ≤ dot).getD path.length
  if pos2 = pos then path.drop (pos + 1) else (path.drop (pos + 1)).take (pos2 - pos - 1)

def hasExtension (pathOrUrl extension : Text) : Bool :=
  let path := pathOrUrl.takeWhile fun c => c ≠ '?' && c ≠ '#'
  match rfind path '.' with
  | none => false
  | some dot => (rfind path '/').all (· < dot) && toLower (path.drop dot) = extension

end FileNames

section Rules

/-- What is around `renderClashScript`. -/
structure ScriptEnv where
  regexes : Regexes
  fileExist : Text → Bool
  remotePathPrefix : Text
  script : Bool
  overwriteOriginalRules : Bool := false
  clashClassicalRuleset : Bool := false

structure ScriptState where
  rules : List Text := []
  matchGroup : Text := []
  geoips : Text := []
  ruleName : Text := []
  groups : List Text := []
  keywords : Text → Option Text := fun _ => none
  urls : Text → Text := fun _ => []
  sourceUrls : Text → Text := fun _ => []
  names : Text → Text := fun _ => []
  hasDomain : Text → Bool := fun _ => false
  hasIpcidr : Text → Bool := fun _ => false
  interval : Text → Int := fun _ => 0
  ruleType : Text → RulesetType := fun _ => .surge

def assign {α : Type} (map : Text → α) (key : Text) (value : α) : Text → α := fun other => if other = key then value else map other

variable (env : ScriptEnv)

-- A script takes no rules.
def ScriptState.push (s : ScriptState) (rule : Text) : ScriptState := if env.script then s else { s with rules := s.rules ++ [rule] }

def takeName (path : Text) (groups : List Text) : Text :=
  freshName id groups (remarkCandidate (urlDecode (findFileName path))) 0

def ScriptState.named (s : ScriptState) (content : RulesetSource) (url : Text) : ScriptState :=
  let name := takeName content.rulePath s.groups
  { s with
    ruleName := name, names := assign s.names name content.ruleGroup, urls := assign s.urls name url,
    sourceUrls := assign s.sourceUrls name content.rulePath, ruleType := assign s.ruleType name content.ruleType,
    interval := assign s.interval name content.updateInterval }

def ScriptState.join (s : ScriptState) : ScriptState :=
  if s.ruleName ∈ s.groups then s else { s with groups := s.groups ++ [s.ruleName] }

def ruleSet (name group : Text) : Text := chars "RULE-SET," ++ name ++ ',' :: group

-- `substr` throws where there is no mark to leave out.
def inlineStep (content : RulesetSource) (s : ScriptState) : Option ScriptState :=
  if content.ruleContent.length < 2 then none
  else
    let strLine := content.ruleContent.drop 2
    if env.script then
      if startsWith strLine (chars "MATCH") ∨ startsWith strLine (chars "FINAL") then some { s with matchGroup := content.ruleGroup }
      else if startsWith strLine (chars "GEOIP") then
        match split strLine ',' with
        | _ :: country :: _ =>
          some { s with
            geoips := s.geoips ++ pythonStringLiteral country ++ chars ": " ++ pythonStringLiteral content.ruleGroup ++ [','] }
        | _ => some s
      else some s
    else
      let strLine := if startsWith strLine (chars "FINAL") then chars "MATCH" else strLine
      some (s.push env (appendClashRuleTarget strLine content.ruleGroup false))

def isClashType (type : RulesetType) : Bool := type = .clashIpCidr || type = .clashDomain || type = .clashClassical

def typedStep (content : RulesetSource) (s : ScriptState) : ScriptState :=
  let s := s.named content ('*' :: content.rulePath)
  let s :=
    match content.ruleType with
    | .clashIpCidr => { s with hasIpcidr := assign s.hasIpcidr s.ruleName true }
    | .clashDomain => { s with hasDomain := assign s.hasDomain s.ruleName true }
    | _ => s
  let s := s.push env (buildClashRuleSetReference s.ruleName content.ruleGroup content.ruleType content.options)
  { s with groups := s.groups ++ [s.ruleName] }

def keywordRule (group : Text) : List Text → Text
  | [] => ',' :: group
  | [type] => type ++ ',' :: group
  | type :: keyword :: rest => type ++ ',' :: trim keyword ++ ',' :: group ++ (rest.head?.map (',' :: ·)).getD []

def keywordStep (group line : Text) (s : ScriptState) : ScriptState :=
  if env.script then
    match split line ',' with
    | _ :: keyword :: _ =>
      let literal := pythonStringLiteral (trim keyword)
      { s with keywords := assign s.keywords s.ruleName (some (((s.keywords s.ruleName).map (· ++ [','])).getD [] ++ literal)) }
    | _ => s
  else s.push env (keywordRule group (split line ','))

def isSkipped (line : Text) : Bool :=
  line = [] || line.head? = some ';' || line.head? = some '#' || startsWith line ['/', '/']

def lineStep (group : Text) (read : ScriptState × Bool) (strLine : Text) : ScriptState × Bool :=
  let (s, hasNoResolve) := read
  let line := if strLine.getLast? = some '\r' then strLine.dropLast else strLine
  if isSkipped line then read
  else if startsWith line (chars "DOMAIN-KEYWORD,") then (keywordStep env group line s, hasNoResolve)
  else if !s.hasDomain s.ruleName && (startsWith line (chars "DOMAIN,") || startsWith line (chars "DOMAIN-SUFFIX,")) then
    ({ s with hasDomain := assign s.hasDomain s.ruleName true }, hasNoResolve)
  else if !s.hasIpcidr s.ruleName && (startsWith line (chars "IP-CIDR,") || startsWith line (chars "IP-CIDR6,")) then
    ({ s with hasIpcidr := assign s.hasIpcidr s.ruleName true }, hasNoResolve || (cutAt (chars ",no-resolve") line).isSome)
  else read

def domainKey (name : Text) : Text := name ++ chars " (Domain)"

def ipcidrKey (name : Text) : Text := name ++ chars " (IP-CIDR)"

def references (group : Text) (s : ScriptState) (hasNoResolve : Bool) : ScriptState :=
  let name := s.ruleName
  let s := if s.hasDomain name then s.push env (ruleSet (domainKey name) group) else s
  let s :=
    if s.hasIpcidr name then s.push env (ruleSet (ipcidrKey name) group ++ if hasNoResolve then chars ",no-resolve" else []) else s
  if !s.hasDomain name && !s.hasIpcidr name then s.push env (ruleSet name group) else s

def contentLines (content : RulesetSource) : List Text :=
  let retrieved := convertRuleset env.regexes content.ruleContent content.ruleType
  split retrieved (getLineBreak retrieved)

def readStep (content : RulesetSource) (s : ScriptState) : ScriptState :=
  if content.ruleContent = [] then s
  else
    let (s, hasNoResolve) := (contentLines env content).foldl (lineStep env content.ruleGroup) (s, false)
    (references env content.ruleGroup s hasNoResolve).join

def servedStep (content : RulesetSource) (s : ScriptState) : ScriptState :=
  if env.remotePathPrefix = [] then readStep env content s
  else if env.fileExist content.rulePath ∨ isLink content.rulePath then
    let s := s.named content content.rulePathTyped
    if env.clashClassicalRuleset then
      let s := s.push env (ruleSet s.ruleName content.ruleGroup)
      { s with groups := s.groups ++ [s.ruleName] }
    else readStep env content s
  else s

def contentStep (s : ScriptState) (content : RulesetSource) : Option ScriptState :=
  if content.rulePath = [] then inlineStep env content s
  else if isClashType content.ruleType then some (typedStep env content s)
  else some (servedStep env content s)

end Rules

section Paths

def isRuleProviderFileNameCharacter (c : Char) : Bool := c.isAlphanum || c = '.' || c = '_' || c = '-'

def isTrimCharacter (c : Char) : Bool := c = '.' || c = '_' || c = '-'

-- What lies between two kept characters becomes one separator.
def sanitizeStep (read : Text × Bool) (c : Char) : Text × Bool :=
  if isRuleProviderFileNameCharacter c then (read.1 ++ (if read.2 && read.1 ≠ [] then ['_'] else []) ++ [c], false)
  else (read.1, true)

def sanitizeRuleProviderFileName (name : Text) : Text :=
  let result := strip isTrimCharacter (name.foldl sanitizeStep ([], false)).1
  let result := if 64 < result.length then ((result.take 64).reverse.dropWhile isTrimCharacter).reverse else result
  if result = [] then chars "provider" else result

def dropHere : Text → Text
  | '.' :: '/' :: rest => dropHere rest
  | path => path

def normalizeRuleProviderPathKey (path : Text) : Text := toLower (dropHere (path.map fun c => if c = '\\' then '/' else c))

def collectRuleProviderPaths (baseRule : Entries) : List Text :=
  match definedField baseRule (chars "rule-providers") with
  | some (.map providers) =>
    providers.filterMap fun provider =>
      match provider.2 with
      | .map fields => ((definedField fields (chars "path")).bind YamlNode.text?).map normalizeRuleProviderPathKey
      | _ => none
  | _ => []

-- The look at the path throws for a provider of the base document that has none.
def providersHavePaths (baseRule : Entries) : Bool :=
  match definedField baseRule (chars "rule-providers") with
  | some (.map providers) =>
    providers.all fun provider =>
      match provider.2 with
      | .map fields => (definedField fields (chars "path")).isSome
      | _ => true
  | _ => true

/-- A byte as `char` widens it. -/
def signedByte (c : Char) : Nat := if c.toNat < 128 then c.toNat else 2 ^ 64 - 256 + c.toNat

def hash (str : Text) : Nat :=
  (str.takeWhile (· ≠ '\x00')).foldl (fun ret c => (ret ^^^ signedByte c) * 0x100000001B3 % 2 ^ 64) 0xCBF29CE484222325

def ruleProviderUrlFingerprint (sourceUrl : Text) : Text :=
  (List.range 16).map fun index => hexDigits.getD ((hash sourceUrl >>> (4 * (15 - index))) &&& 0x0f) '0'

def pathCandidate (providerName behavior sourceUrl extension : Text) (index : Nat) : Text :=
  chars "./providers/" ++ sanitizeRuleProviderFileName providerName ++ (if 1 < index then '-' :: decimal index else []) ++ '-' :: behavior ++
    '-' :: ruleProviderUrlFingerprint sourceUrl ++ '.' :: extension

def reserveRuleProviderPath (providerName behavior sourceUrl extension : Text) (usedPaths : List Text) : Text :=
  freshName normalizeRuleProviderPathKey usedPaths (pathCandidate providerName behavior sourceUrl extension) 1

end Paths

section Providers

def asEntries : Option YamlNode → Option Entries
  | none | some .null => some []
  | some (.map entries) => some entries
  | some (.sequence items) => some (items.zipIdx.map fun item => (.scalar (decimal item.2), item.1))
  | some (.scalar _) => none

structure ProviderWrite where
  key : Text
  behavior : Text
  conversionType : Nat
  group : Text
deriving DecidableEq, Repr

def providerWrites (s : ScriptState) (x : Text) : List ProviderWrite :=
  (if s.hasDomain x then [⟨if s.ruleType x ≠ .clashDomain then domainKey x else x, chars "domain", 3, x⟩] else []) ++
  (if s.hasIpcidr x then [⟨if s.ruleType x ≠ .clashIpCidr then ipcidrKey x else x, chars "ipcidr", 4, x⟩] else []) ++
  if !s.hasDomain x && !s.hasIpcidr x then [⟨x, chars "classical", 6, x⟩] else []

def directUrl (url : Text) : Text := if url.head? = some '*' then url.tail else []

def providerFormat (directUrl : Text) : Text :=
  if hasExtension directUrl (chars ".mrs") then chars "mrs"
  else if hasExtension directUrl (chars ".txt") then chars "text"
  else if directUrl = [] ∨ hasExtension directUrl (chars ".yaml") ∨ hasExtension directUrl (chars ".yml") then chars "yaml"
  else []

def providerExtension (directUrl : Text) : Text :=
  if hasExtension directUrl (chars ".mrs") then chars "mrs"
  else if hasExtension directUrl (chars ".txt") then chars "txt"
  else chars "yaml"

def servedUrl (remotePathPrefix : Text) (conversionType : Nat) (url : Text) : Text :=
  remotePathPrefix ++ chars "/getruleset?type=" ++ decimal conversionType ++ chars "&url=" ++ Utils.Base64.urlSafeBase64Encode url

def integer (value : Int) : Text := if value < 0 then '-' :: decimal value.natAbs else decimal value.natAbs

variable (env : ScriptEnv) (s : ScriptState)

def providerUrl (write : ProviderWrite) : Text :=
  let url := s.urls write.group
  if url.head? = some '*' then url.tail else servedUrl env.remotePathPrefix write.conversionType url

def providerFields (write : ProviderWrite) (path : Text) (provider : Entries) : Entries :=
  let direct := directUrl (s.urls write.group)
  let provider := setField (chars "type") (.scalar (chars "http")) provider
  let provider := setField (chars "behavior") (.scalar write.behavior) provider
  let provider := setField (chars "url") (.scalar (providerUrl env s write)) provider
  let provider := setField (chars "path") (.scalar path) provider
  let provider := if providerFormat direct ≠ [] then setField (chars "format") (.scalar (providerFormat direct)) provider else provider
  if s.interval write.group ≠ 0 then setField (chars "interval") (.scalar (integer (s.interval write.group))) provider else provider

def writePath (write : ProviderWrite) (usedPaths : List Text) : Text :=
  reserveRuleProviderPath write.group write.behavior (s.sourceUrls write.group)
    (providerExtension (directUrl (s.urls write.group))) usedPaths

def emitProvider (emitted : Entries × List Text) (write : ProviderWrite) : Option (Entries × List Text) := do
  let (root, usedPaths) := emitted
  let providers ← asEntries (definedField root (chars "rule-providers"))
  let provider ← asEntries (definedField providers write.key)
  let path := writePath s write usedPaths
  let providers := setField write.key (.map (providerFields env s write path provider)) providers
  return (setField (chars "rule-providers") (.map providers) root, normalizeRuleProviderPathKey path :: usedPaths)

end Providers

section Scripts

structure ScriptRule where
  hasDomain : Bool
  hasIpcidr : Bool
  name : Text
  group : Text
  keyword : Text
  original : Bool
deriving DecidableEq, Repr

def scriptRule (s : ScriptState) (x : Text) : ScriptRule where
  hasDomain := s.hasDomain x
  hasIpcidr := s.hasIpcidr x
  name := pythonStringEscape x
  group := pythonStringEscape (s.names x)
  keyword := (s.keywords x).getD []
  original := s.ruleType x = .clashDomain || s.ruleType x = .clashIpCidr

inductive Json where
  | boolean (value : Bool)
  | text (value : Text)
deriving DecidableEq

def truthy : Json → Bool
  | .boolean value => value
  | .text value => value ≠ []

-- `not rule.keyword == ""`: the engine lets `not` bind before `==`.
def showsKeywords (rule : ScriptRule) : Bool := Json.boolean (!truthy (.text rule.keyword)) = Json.text []

def clashScriptKeywordTemplate (rule : ScriptRule) : Text :=
  chars "  keywords = [" ++ rule.keyword ++ chars "]\n  for keyword in keywords:\n    if keyword in host:\n" ++
    chars "      ctx.log('[Script] matched " ++ rule.group ++ chars " DOMAIN-KEYWORD rule')\n      return \"" ++ rule.group ++ ['"']

def matchTemplate (rule : ScriptRule) (suffix kind : Text) : Text :=
  chars "  if ctx.rule_providers[\"" ++ rule.name ++ suffix ++ chars "\"].match(md):\n    ctx.log('[Script] matched " ++ rule.group ++ kind ++
    chars " rule')\n    return \"" ++ rule.group ++ ['"']

def clashScriptGroupTemplate (rule : ScriptRule) : Text :=
  if (!rule.hasDomain && !rule.hasIpcidr) || rule.original then matchTemplate rule [] []
  else
    (if rule.hasDomain then matchTemplate rule (chars "_domain") (chars " DOMAIN") else []) ++ ['\n'] ++
      (if showsKeywords rule then clashScriptKeywordTemplate rule else []) ++ ['\n'] ++
      if rule.hasIpcidr then matchTemplate rule (chars "_ipcidr") (chars " IP") else []

def geoipTemplate (geoips matchGroup : Text) : Text :=
  chars "  geoips = \x7b " ++ geoips ++ chars " \x7d\n  ip = md[\"dst_ip\"]\n  if ip == \"\":\n    ip = ctx.resolve_ip(host)\n" ++
    chars "    if ip == \"\":\n      ctx.log('[Script] dns lookup error use " ++ matchGroup ++ chars "')\n      return \"" ++ matchGroup ++
    chars "\"\n  for key in geoips:\n    if ctx.geoip(ip) == key:\n      return geoips[key]"

def clashScriptTemplate (rules : List ScriptRule) (geoips : Option Text) (matchGroup : Text) : Text :=
  chars "def main(ctx, md):\n  host = md[\"host\"]\n" ++
    rules.flatMap (fun rule => ['\n'] ++ clashScriptGroupTemplate rule ++ ['\n']) ++ chars "\n\n" ++
    (geoips.map fun geoips => geoipTemplate geoips matchGroup).getD [] ++ chars "\n  return \"" ++ matchGroup ++ ['"']

-- A loop over rules that there are not throws.
def scriptCode (s : ScriptState) : Option Text :=
  if s.groups = [] then none
  else
    some (clashScriptTemplate (s.groups.map (scriptRule s)) (if s.geoips = [] then none else some s.geoips.dropLast)
      (pythonStringEscape s.matchGroup))

end Scripts

section Document

variable (env : ScriptEnv)

def ruleTexts : Option YamlNode → Option (List Text)
  | none | some .null => some []
  | some (.sequence items) =>
    items.mapM fun item =>
      match item with
      | .scalar text => some text
      | .null => some (chars "null")
      | .sequence _ | .map _ => none
  | some (.scalar _) | some (.map _) => none

def readContents (baseRule : Entries) (contents : List RulesetSource) : Option ScriptState := do
  let original ← if env.overwriteOriginalRules then some [] else ruleTexts (definedField baseRule (chars "rules"))
  contents.foldlM (contentStep env) { rules := original }

def ScriptState.writes (s : ScriptState) : List ProviderWrite := s.groups.flatMap (providerWrites s)

def emitProviders (s : ScriptState) (baseRule : Entries) : Option (Entries × List Text) :=
  if providersHavePaths baseRule then s.writes.foldlM (emitProvider env s) (baseRule, collectRuleProviderPaths baseRule) else none

def renderClashScript (baseRule : Entries) (contents : List RulesetSource) : Option Entries := do
  let s ← readContents env baseRule contents
  let (root, _) ← emitProviders env s baseRule
  if env.script then
    let code ← scriptCode s
    let script ← asEntries (definedField root (chars "script"))
    return setField (chars "script") (.map (setField (chars "code") (.scalar code) script)) root
  else return setField (chars "rules") (textSequence s.rules) root

theorem readContents_run {env : ScriptEnv} {baseRule : Entries} {contents : List RulesetSource} {s : ScriptState}
    (done : readContents env baseRule contents = some s) :
    ∃ original, contents.foldlM (contentStep env) { rules := original } = some s := by
  rw [readContents] at done
  split at done <;> obtain ⟨original, -, walked⟩ := Option.bind_eq_some_iff.mp done <;> exact ⟨original, walked⟩

end Document

end SubConverter.Generator.ClashScript
