import SubConverter.Handler.Addresses

set_option autoImplicit false

namespace SubConverter.Handler

section Decoding

def fromHex (c : Char) : Nat :=
  if 'A' ≤ c ∧ c ≤ 'Z' then c.toNat - 55
  else if 'a' ≤ c ∧ c ≤ 'z' then c.toNat - 87
  else if c.isDigit then c.toNat - 48
  else c.toNat

-- Line breaks are left out, and a percent sign less than three bytes before the end ends the text.
def urlDecode : Text → Text
  | [] => []
  | '+' :: rest => ' ' :: urlDecode rest
  | '%' :: high :: low :: rest =>
    if high.isAlphanum ∧ low.isAlphanum then
      let decoded := Char.ofNat ((fromHex high * 16 + fromHex low) % 256)
      if decoded = '\r' ∨ decoded = '\n' then urlDecode rest else decoded :: urlDecode rest
    else '%' :: urlDecode (high :: low :: rest)
  | '%' :: _ => []
  | c :: rest => if c = '\r' ∨ c = '\n' then urlDecode rest else c :: urlDecode rest

-- The greedy group of the expression leaves nothing to the blanks behind it.
def regTrim (src : Text) : Text := src.dropWhile isSpace

def parseProxyProviderInterval (value : Text) : Option Nat :=
  let input := strip isSpace value
  if input = [] ∨ !input.all Char.isDigit ∨ 2147483647 < digitsValue input then none else some (digitsValue input)

def parseProxyProviderDirect (value : Text) : Option Bool :=
  let normalized := toLower (strip isSpace value)
  if normalized = chars "true" ∨ normalized = ['1'] then some true
  else if normalized = chars "false" ∨ normalized = ['0'] then some false
  else none

end Decoding

section Prefixes

inductive LinkError where
  | none
  | invalidInterval
  | duplicateInterval
  | invalidProxyDirect
  | duplicateProxyDirect
deriving DecidableEq, Repr

-- A prefix that was not given is `none`; the settings stand in for it.
structure TaggedLink where
  tag : Option Text := none
  provider : Option Text := none
  link : Text := []
  interval : Option Nat := none
  proxyDirect : Option Bool := none
  linkDecoded : Bool := false
  error : LinkError := .none
deriving DecidableEq, Repr

structure Extracted where
  value : Text
  remainder : Text
  bracketed : Bool
deriving DecidableEq, Repr

def dropPrefix? (mark text : Text) : Option Text := if startsWith text mark then some (text.drop mark.length) else none

def extractLinkPrefix (input mark : Text) : Option Extracted :=
  let trimmed := strip isSpace input
  let found :=
    match dropPrefix? ('<' :: mark) trimmed with
    | some rest => some (rest, true)
    | none => (dropPrefix? mark trimmed).map fun rest => (rest, false)
  match found with
  | none => none
  | some (rest, bracketed) =>
    match cutAt [','] rest with
    | none => none
    | some (value, behind) =>
      let remainder := if bracketed ∧ behind.head? = some '>' then behind.tail else behind
      if remainder = [] then none else some ⟨value, remainder, bracketed⟩

inductive PrefixStep where
  | more (result : TaggedLink) (extracted : Extracted)
  | failed (error : LinkError)
  | done

def prefixStep (result : TaggedLink) (remainder : Text) : PrefixStep :=
  match extractLinkPrefix remainder (chars "tag:") with
  | some extracted =>
    .more (if extracted.value ≠ [] ∧ result.tag = none then { result with tag := some extracted.value } else result) extracted
  | none =>
  match extractLinkPrefix remainder (chars "provider:") with
  | some extracted =>
    .more (if extracted.value ≠ [] ∧ result.provider = none then { result with provider := some extracted.value } else result)
      extracted
  | none =>
  match extractLinkPrefix remainder (chars "interval:") with
  | some extracted =>
    if result.interval ≠ none then .failed .duplicateInterval
    else
      match parseProxyProviderInterval extracted.value with
      | none => .failed .invalidInterval
      | some interval => .more { result with interval := some interval } extracted
  | none =>
  match extractLinkPrefix remainder (chars "proxy_direct:") with
  | some extracted =>
    if result.proxyDirect ≠ none then .failed .duplicateProxyDirect
    else
      match parseProxyProviderDirect extracted.value with
      | none => .failed .invalidProxyDirect
      | some direct => .more { result with proxyDirect := some direct } extracted
  | none => .done

def hasInfix (mark text : Text) : Bool := (cutAt mark text).isSome

def linkAfterPrefixes (result : TaggedLink) (remainder : Text) (sawBracketed parsed : Bool) : Option TaggedLink :=
  let lower := toLower (strip isSpace remainder)
  let starts mark := startsWith lower mark || startsWith lower ('<' :: mark)
  if starts (chars "interval:") ∧ !hasInfix (chars "%2c") lower then some { result with error := .invalidInterval }
  else if starts (chars "proxy_direct:") ∧ !hasInfix (chars "%2c") lower then some { result with error := .invalidProxyDirect }
  else if !parsed then none
  else
    let trimmed := strip isSpace remainder
    some { result with link := if sawBracketed ∧ trimmed.getLast? = some '>' then trimmed.dropLast else trimmed }

-- Every prefix that is read takes something off the text, so there are fewer rounds than bytes.
def parsePrefixes : Nat → TaggedLink → Text → Bool → Bool → Option TaggedLink
  | 0, result, remainder, sawBracketed, parsed => linkAfterPrefixes result remainder sawBracketed parsed
  | rounds + 1, result, remainder, sawBracketed, parsed =>
    match prefixStep result remainder with
    | .more result extracted => parsePrefixes rounds result extracted.remainder (sawBracketed || extracted.bracketed) true
    | .failed error => some { result with error := error }
    | .done => linkAfterPrefixes result remainder sawBracketed parsed

def parseLinkPrefixes (input : Text) : Option TaggedLink := parsePrefixes input.length {} input false false

def encodedPrefixes : List Text :=
  [chars "tag%3a", chars "provider%3a", chars "interval%3a", chars "proxy_direct%3a", chars "%3ctag%3a",
    chars "%3cprovider%3a", chars "%3ctag:", chars "%3cinterval%3a", chars "%3cproxy_direct%3a", chars "%3cprovider:",
    chars "%3cinterval:", chars "%3cproxy_direct:"]

def plainPrefixes : List Text := [chars "tag:", chars "provider:", chars "interval:", chars "proxy_direct:"]

def looksLikeEncodedLinkPrefix (input : Text) : Bool :=
  let lower := toLower input
  encodedPrefixes.any (startsWith lower) || (plainPrefixes.any (startsWith lower) && hasInfix (chars "%2c") lower)

def parseTaggedLink (input : Text) : TaggedLink :=
  let value := strip isSpace input
  match parseLinkPrefixes value with
  | some result => result
  | none =>
    match if looksLikeEncodedLinkPrefix value then parseLinkPrefixes (urlDecode value) else none with
    | some decoded => { decoded with linkDecoded := true }
    | none => { link := value }

example : parseTaggedLink (chars " <tag:a,><provider:p,>https://h/s> ") =
    { tag := some ['a'], provider := some ['p'], link := chars "https://h/s" } := by
  decide

end Prefixes

end SubConverter.Handler
