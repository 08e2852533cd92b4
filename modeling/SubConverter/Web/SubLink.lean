import SubConverter.Lib.FormUrlencoded
import SubConverter.Lib.Keyed
import SubConverter.Handler.GithubProxy
import SubConverter.Web.InlineRules

set_option autoImplicit false

namespace SubConverter.Web

open Handler (startsWith endsWith)
open Handler.GithubProxy (contains replaceAll urlHole encodedUrlHole)

section Options

inductive OptionType where
  | boolean
  | string
  | enum
  | number
deriving DecidableEq, Repr

-- Of the defaults only those that are `true` are read here.
structure OptionDef where
  key : Text
  type : OptionType
  defaultTrue : Bool := false
deriving DecidableEq, Repr

def optionDefs : List OptionDef :=
  [⟨chars "emoji", .boolean, false⟩, ⟨chars "tfo", .boolean, false⟩, ⟨chars "udp", .boolean, true⟩, ⟨chars "scv", .boolean, false⟩,
    ⟨chars "sort", .boolean, false⟩, ⟨chars "fdn", .boolean, false⟩, ⟨chars "rename", .string, false⟩,
    ⟨chars "include", .string, false⟩, ⟨chars "exclude", .string, false⟩, ⟨chars "config", .enum, false⟩,
    ⟨chars "ext_ruleset", .string, false⟩, ⟨chars "inline_rules", .string, false⟩, ⟨chars "list", .boolean, false⟩,
    ⟨chars "interval", .number, false⟩, ⟨chars "clash.dns", .boolean, false⟩, ⟨chars "append_type", .boolean, false⟩,
    ⟨chars "expand", .boolean, false⟩, ⟨chars "provider", .boolean, true⟩]

def optionDef (key : Text) : Option OptionDef := optionDefs.find? fun entry => entry.key = key

def explicitFalseKeys : List Text := (optionDefs.filter fun entry => entry.type = .boolean && entry.defaultTrue).map OptionDef.key

def trueAsOneKeys : List Text := [chars "clash.dns"]

variable {ν : Type}

/-- A value of the options record, where `ν` is the type of the finite numbers. -/
inductive OptionValue (ν : Type) where
  | undefined
  | text (value : Text)
  | flag (value : Bool)
  | number (value : ν)
deriving DecidableEq, Repr

structure Options (ν : Type) where
  entries : List (Text × OptionValue ν) := []
  distinct : (entries.map Prod.fst).Nodup := by simp

def Options.get (options : Options ν) (key : Text) : Option (OptionValue ν) := Keyed.find key options.entries

def Options.set (options : Options ν) (key : Text) (value : OptionValue ν) : Options ν :=
  ⟨Keyed.put key value options.entries, Keyed.nodup_put options.distinct⟩

theorem Options.get_set (options : Options ν) (key other : Text) (value : OptionValue ν) :
    (options.set key value).get other = if other = key then some value else options.get other := by
  unfold Options.get Options.set
  split
  next same => rw [same, Keyed.find_put]
  next different => exact Keyed.find_put_of_ne different

end Options

section RuleTarget

inductive RulePlacement where
  | prepend
  | append
deriving DecidableEq, Repr

inductive PlacementKey where
  | extRuleset
  | inlineRules
deriving DecidableEq, Repr

def PlacementKey.key : PlacementKey → Text
  | .extRuleset => chars "ext_ruleset"
  | .inlineRules => chars "inline_rules"

def placementKeys : List PlacementKey := [.extRuleset, .inlineRules]

def rulePlacementKey (key : Text) : Text := key ++ chars "_mode"

def prependParam (key : Text) : Text := key ++ chars "_prepend"

def isPlacementKey (key : Text) : Bool := placementKeys.any fun family => key = family.key

def ruleParamFor (key : Text) (placement : RulePlacement) : Text := if placement = .prepend then prependParam key else key

def OptionValue.placement {ν : Type} : OptionValue ν → RulePlacement
  | .text value => if value = chars "prepend" then .prepend else .append
  | _ => .append

def placementOf {ν : Type} (options : Options ν) (key : Text) : RulePlacement :=
  ((options.get (rulePlacementKey key)).map OptionValue.placement).getD .append

end RuleTarget

section Sources

def dropReturn (line : Text) : Text := if line.getLast? = some '\r' then line.dropLast else line

-- The return in front of a line break belongs to the break.
def splitLines (text : Text) : List Text :=
  (text.splitOn '\n').dropLast.map dropReturn ++ (text.splitOn '\n').getLast?.toList

def splitSourceUrls (text : Text) : List Text := ((splitLines text).map trim).filter fun line => line ≠ []

def joinSourceUrlsForWire (text : Text) : Text := ['|'].intercalate (splitSourceUrls text)

def wireToSourceUrls (wire : Text) : Text := ['\n'].intercalate (splitSourceUrls (wire.map fun c => if c = '|' then '\n' else c))

end Sources

section Rulesets

structure ExtRulesetRow where
  group : Text
  url : Text
deriving DecidableEq, Repr

-- The body of the loop of `parseExtRulesetRows`.
def readRow (part : Text) : Option ExtRulesetRow :=
  let trimmed := trim part
  if trimmed = [] ∨ trimmed.head? = some '#' then none
  else
    match cutAt [','] trimmed with
    | none => none
    | some (left, right) =>
      let group := trim left
      let url := trim right
      if group = [] ∨ url = [] then none else some ⟨group, url⟩

def splitEntries (value : Text) : List Text := (value.map fun c => if c = '\r' ∨ c = '\n' then ';' else c).splitOn ';'

def parseExtRulesetRows (value : Text) : List ExtRulesetRow := (splitEntries value).filterMap readRow

def ExtRulesetRow.line (row : ExtRulesetRow) : Text := row.group ++ ',' :: row.url

def ruleFamilyValue (family : PlacementKey) (value : Text) : Text :=
  if family ≠ .extRuleset then value else ['\n'].intercalate ((parseExtRulesetRows value).map ExtRulesetRow.line)

def rulesetLines (extRaw : Text) : List Text :=
  ((extRaw.splitOn '\n').map trim).filter fun line => line ≠ [] ∧ line.head? ≠ some '#'

end Rulesets

section Browsers

structure Url where
  hostname : Text
  pathname : Text
  query : Text
deriving DecidableEq, Repr

/-- What the page takes from the browser and from its own address. -/
structure Browser (ν : Type) where
  parseUrl : Text → Option Url
  defaultBackendBase : Text
  integer : Int → ν
  numberText : ν → Text
  readNumber : Text → Option ν

def maxSafeInteger : Nat := 2 ^ 53 - 1

variable {ν : Type} (browser : Browser ν)

structure Browser.Standard : Prop where
  query : ∀ location query, chars "/sub" <:+ location → (browser.parseUrl location).isSome → '?' ∉ location → '#' ∉ location →
    (∀ c ∈ query, FormUrlencoded.isQueryChar c = true) →
      ∃ url, browser.parseUrl (location ++ '?' :: query) = some url ∧ url.query = query
  numberText : ∀ n : Int, n.natAbs ≤ maxSafeInteger → browser.numberText (browser.integer n) = Handler.integer n
  readNumber : ∀ n : Int, n.natAbs ≤ maxSafeInteger → browser.readNumber (Handler.integer n) = some (browser.integer n)

end Browsers

section GithubProxy

variable {ν : Type} (browser : Browser ν)

def githubProxyCustom : Text := chars "__custom_github_proxy__"

def githubHosts : List Text := [chars "github.com", chars "raw.githubusercontent.com", chars "gist.githubusercontent.com"]

def jsdelivrHosts : List Text := [chars "cdn.jsdelivr.net", chars "fastly.jsdelivr.net", chars "testingcf.jsdelivr.net"]

def Url.host (url : Url) : Text := Handler.toLower url.hostname

def isGitHubConfigUrl (value : Text) : Bool := (browser.parseUrl value).any fun url => url.host ∈ githubHosts

def normalizeGitHubProxyPrefix (proxy : Text) : Text :=
  let trimmed := trim proxy
  if trimmed = [] then []
  else if contains trimmed urlHole || contains trimmed encodedUrlHole then trimmed
  else if endsWith trimmed ['/'] then trimmed
  else trimmed ++ ['/']

def githubProxyPrefixFor (value customPrefix : Option Text) : Text :=
  match value with
  | none | some [] => []
  | some value => normalizeGitHubProxyPrefix (if value = githubProxyCustom then customPrefix.getD [] else value)

def ghPath (owner repo ref : Text) (path : List Text) : Text :=
  chars "gh/" ++ owner ++ '/' :: repo ++ '@' :: ref ++ '/' :: ['/'].intercalate path

def jsdelivrGhPath (url : Url) : Text :=
  match (url.pathname.splitOn '/').filter (· ≠ []) with
  | owner :: repo :: third :: fourth :: path =>
    if url.host = chars "raw.githubusercontent.com" then ghPath owner repo third (fourth :: path)
    else if url.host = chars "github.com" ∧ path ≠ [] ∧ (third = chars "raw" ∨ third = chars "blob") then ghPath owner repo fourth path
    else []
  | _ => []

-- The bytes that `encodeURIComponent` leaves as they are.
def componentByte (byte : UInt8) : Bool :=
  FormUrlencoded.isAlphanumeric byte || byte ∈ FormUrlencoded.utf8 (chars "-_.!~*'()")

def applyGitHubProxy (value proxy : Text) : Text :=
  let proxy := normalizeGitHubProxyPrefix proxy
  if proxy = [] ∨ !isGitHubConfigUrl browser value then value
  else if contains proxy encodedUrlHole then replaceAll proxy encodedUrlHole (FormUrlencoded.percentEncode componentByte value)
  else if contains proxy urlHole then replaceAll proxy urlHole value
  else
    match browser.parseUrl proxy with
    | none => value
    | some url =>
      if url.host ∈ jsdelivrHosts then
        let path := ((browser.parseUrl value).map jsdelivrGhPath).getD []
        if path = [] then value else proxy ++ path
      else proxy ++ value

end GithubProxy

section Builder

variable {ν : Type} (browser : Browser ν)

structure FormState (ν : Type) where
  target : Text
  sourceUrl : Text
  subscriptionName : Text := []
  dnsTemplateId : Option Text := none
  backendBase : Text := []
  githubProxy : Option Text := none
  customGithubProxy : Option Text := none
  options : Options ν := {}

def normalizeBackendBase (value : Text) : Text := value.rdropWhile (· = '/')

def backendBaseForState (state : FormState ν) : Text :=
  normalizeBackendBase (if state.backendBase = [] then browser.defaultBackendBase else state.backendBase)

def clashTargets : List Text := [chars "clash", chars "clashr"]

abbrev Params := List (Text × Text)

variable (state : FormState ν)

def nameParam : Params := if trim state.subscriptionName = [] then [] else [(chars "filename", trim state.subscriptionName)]

def dnsParam : Params :=
  let template := trim (state.dnsTemplateId.getD [])
  match state.options.get (chars "clash.dns") with
  | some (.flag true) => if state.target ∈ clashTargets ∧ template ≠ [] then [(chars "dns_template", template)] else []
  | _ => []

def rulesetParam : Params :=
  match state.options.get (chars "ext_ruleset") with
  | some (.text extRaw) =>
    if rulesetLines extRaw = [] then []
    else
      [(ruleParamFor (chars "ext_ruleset") (placementOf state.options (chars "ext_ruleset")),
        [';'].intercalate (rulesetLines extRaw))]
  | _ => []

def paramName (key : Text) : Text := if isPlacementKey key then ruleParamFor key (placementOf state.options key) else key

def paramText (proxy name : Text) : OptionValue ν → Option Text
  | .undefined | .text [] => none
  | .flag false => if name ∈ explicitFalseKeys then some (chars "false") else none
  | .flag true => some (if name ∈ trueAsOneKeys then ['1'] else chars "true")
  | .text value => some (if name = chars "config" then applyGitHubProxy browser value proxy else value)
  | .number value => some (browser.numberText value)

def proxyPrefix : Text := githubProxyPrefixFor state.githubProxy state.customGithubProxy

def optionParam (entry : Text × OptionValue ν) : Option (Text × Text) :=
  if entry.1 = chars "provider" ∧ state.target ∉ clashTargets then none
  else if entry.1 = chars "ext_ruleset" then none
  else if placementKeys.any fun family => entry.1 = rulePlacementKey family.key then none
  else
    (paramText browser (proxyPrefix state) (paramName state entry.1) entry.2).map fun text => (paramName state entry.1, text)

-- The calls of `params.set`, in their order.
def written : Params :=
  (chars "target", state.target) :: (chars "url", joinSourceUrlsForWire state.sourceUrl) ::
    (nameParam state ++ dnsParam state ++ rulesetParam state ++ state.options.entries.filterMap (optionParam browser state))

/-- The parameters that have been set. Their names stay distinct, for nothing but `set` writes them. -/
def params : Params := (written browser state).foldl (fun params param => Keyed.put param.1 param.2 params) []

def buildSubUrl : Text := backendBaseForState browser state ++ chars "/sub?" ++ FormUrlencoded.serialize (params browser state)

end Builder

section Parser

variable {ν : Type} (browser : Browser ν)

structure ParsedSubLink (ν : Type) where
  state : FormState ν
  unknown : Params

structure Reading (ν : Type) where
  options : Options ν := {}
  unknown : Params := []
  prependValues : List (PlacementKey × Text) := []
  appendValues : List (PlacementKey × Text) := []

def formParams : List Text := [chars "target", chars "url", chars "filename", chars "dns_template"]

def readOption (entry : OptionDef) (value : Text) : OptionValue ν :=
  if entry.key = chars "ext_ruleset" then .text (ruleFamilyValue .extRuleset value)
  else
    match entry.type with
    | .boolean => .flag (value ≠ chars "false" ∧ value ≠ ['0'])
    | .number => ((browser.readNumber value).map OptionValue.number).getD (.text value)
    | .string | .enum => .text value

def readParam (s : Reading ν) (param : Text × Text) : Reading ν :=
  if param.1 ∈ formParams then s
  else
    match placementKeys.find? fun family => param.1 = prependParam family.key with
    | some family => { s with prependValues := Keyed.put family param.2 s.prependValues }
    | none =>
      let s :=
        match placementKeys.find? fun family => param.1 = family.key with
        | some family => { s with appendValues := Keyed.put family param.2 s.appendValues }
        | none => s
      match optionDef param.1 with
      | some entry => { s with options := s.options.set param.1 (readOption browser entry param.2) }
      | none => { s with unknown := Keyed.put param.1 param.2 s.unknown }

-- The parameter that puts the rules first wins.
def settle (s : Reading ν) (family : PlacementKey) : Reading ν :=
  match Keyed.find family s.prependValues with
  | none => s
  | some prependValue =>
    { s with
      unknown :=
        match Keyed.find family s.appendValues with
        | some appendValue => Keyed.put family.key appendValue s.unknown
        | none => s.unknown
      options := (s.options.set family.key (.text (ruleFamilyValue family prependValue))).set (rulePlacementKey family.key)
        (.text (chars "prepend")) }

def readParams (params : Params) : Reading ν := placementKeys.foldl settle (params.foldl (readParam browser) {})

def linkParams (input : Text) : Option Params := (browser.parseUrl (trim input)).map fun url => FormUrlencoded.parse url.query

def invalidLink : Text := chars "invalid-link"

def parseSubUrl (input : Text) : Except Text (ParsedSubLink ν) :=
  match linkParams browser input with
  | none => .error invalidLink
  | some params =>
    let target := (Keyed.find (chars "target") params).getD []
    let wireSourceUrl := (Keyed.find (chars "url") params).getD []
    if target = [] ∨ wireSourceUrl = [] then .error invalidLink
    else
      let read := readParams browser params
      .ok ⟨{ target := target
             sourceUrl := wireToSourceUrls wireSourceUrl
             subscriptionName := (Keyed.find (chars "filename") params).getD []
             dnsTemplateId := some ((Keyed.find (chars "dns_template") params).getD [])
             options := read.options }, read.unknown⟩

end Parser

end SubConverter.Web
