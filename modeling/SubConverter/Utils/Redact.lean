import SubConverter.Handler.Addresses
import SubConverter.Lib.Rewriting

set_option autoImplicit false

namespace SubConverter.Utils.Redact

open Handler (isSpace toLower startsWith split)
open Rewriting

section Predicates

-- Every character stands for one byte.
def isUrlTerminator (character : Char) : Bool := character ∈ ['\x00', '\'', '"', '<', '>', '\r', '\n', ' ', '\t']

def isLineBreak (character : Char) : Bool := character = '\r' || character = '\n'

def normalized (name : Text) : Text :=
  ((toLower name).map fun c => if c = '-' then '_' else c).map fun c => if c = '.' then '_' else c

def sensitiveNames : List Text :=
  ["token", "access_token", "api_key", "apikey", "key", "secret", "password", "pass", "authorization", "cookie", "set_cookie",
    "url", "config", "userinfo", "profile_data", "dev_id", "upload_path", "groups", "ruleset", "rename", "filter_script",
    "private_key", "pre_shared_key", "privatekey", "presharedkey", "quicsecret", "userid", "auth", "authstr", "auth_str", "psk",
    "shadowtlspassword"].map chars

def sensitiveSuffixes : List Text :=
  ["_token", "_secret", "_password", "_api_key", "_apikey", "_private_key"].map chars

def sensitiveParameter (name : Text) : Bool :=
  let lower := normalized name
  lower ∈ sensitiveNames || sensitiveSuffixes.any fun suffix => suffix.isSuffixOf lower

def opaqueSecretScheme (scheme : Text) : Bool :=
  toLower scheme ∈ ["data", "ss", "ssr", "ssd", "vmess", "vless", "trojan", "hysteria", "hysteria2", "hy2", "tuic", "wireguard"].map
    chars

def schemeCharacter (character : Char) : Bool := character.isAlphanum || character ∈ ['+', '-', '.']

def urlScheme (url : Text) : Text :=
  match cutAt [':'] url with
  | none => []
  | some (scheme, _) => if scheme.all schemeCharacter then toLower scheme else []

def safeAuthorityForLog (authority : Text) : Bool :=
  authority ≠ [] && authority.all fun c => c.isAlphanum || c ∈ ['.', '-', ':', '[', ']']

def structuredKeyCharacter (character : Char) : Bool := character.isAlphanum || character ∈ ['_', '-', '.']

-- By the text in front of the place.
def structuredKeyBoundary (before : Text) : Bool :=
  match before.getLast? with
  | none => true
  | some character => isSpace character || character ∈ ['{', '[', ',', '-']

def replacement : Text := chars "<redacted>"

end Predicates

section Containers

structure Nesting where
  depth : Nat := 0
  quote : Option Char := none
  backslashes : Nat := 0
deriving DecidableEq, Repr

def Nesting.step (opening closing : List Char) (nesting : Nesting) (character : Char) : Nesting :=
  let backslashes := if character = '\\' then nesting.backslashes + 1 else 0
  match nesting.quote with
  | some quote =>
    if character = quote ∧ nesting.backslashes % 2 = 0 then { nesting with quote := none, backslashes := backslashes }
    else { nesting with backslashes := backslashes }
  | none =>
    if character = '\'' ∨ character = '"' then { nesting with quote := some character, backslashes := backslashes }
    else if character ∈ opening then { nesting with depth := nesting.depth + 1, backslashes := backslashes }
    else if character ∈ closing ∧ nesting.depth > 0 then { nesting with depth := nesting.depth - 1, backslashes := backslashes }
    else { nesting with backslashes := backslashes }

def insideStructuredContainerOnLine (before : Text) : Bool :=
  let line := before.rtakeWhile fun c => !isLineBreak c
  (line.foldl (Nesting.step ['\x7b', '['] ['\x7d', ']']) {}).depth > 0

-- What stands behind a value is given, from the text behind its first quote.
def quotedValueEnd (quote : Char) (inside : Text) : Text :=
  let rec find : Nat → Text → Option Text
    | _, [] => none
    | backslashes, c :: rest =>
      if c = quote ∧ backslashes % 2 = 0 then some (c :: rest) else find (if c = '\\' then backslashes + 1 else 0) rest
  (find 0 inside).getD (inside.dropWhile fun c => !isLineBreak c)

def compositeValueEnd (closing : Char) (value : Text) : Text :=
  let opening := if closing = '\x7d' then '\x7b' else '['
  let rec find (nesting : Nesting) : Text → Option Text
    | [] => none
    | c :: rest =>
      let after := Nesting.step [opening] [closing] nesting c
      if nesting.quote = none ∧ c = closing ∧ after.depth = 0 then some rest else find after rest
  (find {} value).getD (value.dropWhile fun c => !isLineBreak c)

-- The lines behind the first one that do not belong to the block.
def yamlBlockLines (keyIndent : Nat) : List Text → List Text
  | [] => []
  | line :: rest =>
    let content := if line.getLast? = some '\r' then line.dropLast else line
    let indent := content.takeWhile fun c => c = ' ' ∨ c = '\t'
    if (line = [] ∧ rest = []) ∨ (indent ≠ content ∧ indent.length ≤ keyIndent) then line :: rest
    else yamlBlockLines keyIndent rest

def yamlBlockValueEnd (beforeKey value : Text) : Text :=
  let keyIndent := (beforeKey.rtakeWhile fun c => c ≠ '\n').length
  (yamlBlockLines keyIndent (value.splitOn '\n').tail).flatMap fun line => '\n' :: line

end Containers

section Fields

-- The key in front of a colon, and what stands in front of the key.
def structuredKey (before : Text) : Text × Text :=
  let keyed := before.rdropWhile fun c => isSpace c && !isLineBreak c
  match keyed.getLast? with
  | none => (keyed, [])
  | some quote =>
    if keyed.length ≥ 2 ∧ (quote = '\'' ∨ quote = '"') then
      let key := keyed.dropLast.rtakeWhile fun c => c ≠ quote
      let front := keyed.dropLast.rdropWhile fun c => c ≠ quote
      if front ≠ [] ∧ structuredKeyBoundary front.dropLast then (front.dropLast, key) else (keyed, [])
    else
      let front := keyed.rdropWhile structuredKeyCharacter
      if structuredKeyBoundary front then (front, keyed.rtakeWhile structuredKeyCharacter) else (front, [])

def structuredFieldAt : Rule Char
  | before, ':' :: rest =>
    let (beforeKey, key) := structuredKey before
    let blanks := rest.takeWhile fun c => c = ' ' ∨ c = '\t'
    let value := rest.dropWhile fun c => c = ' ' ∨ c = '\t'
    if !sensitiveParameter key then none
    else
      match value with
      | [] => none
      | first :: inside =>
        if isLineBreak first then none
        else if first = '\'' ∨ first = '"' then
          some (':' :: blanks ++ [first] ++ replacement, quotedValueEnd first inside)
        else
          let behind :=
            if first = '\x7b' then compositeValueEnd '\x7d' value
            else if first = '[' then compositeValueEnd ']' value
            else if first = '|' ∨ first = '>' then yamlBlockValueEnd beforeKey value
            else
              let plain := value.takeWhile fun c => !(isLineBreak c || c ∈ [',', '\x7d', ']', '#'])
              value.drop (plain.rdropWhile isSpace).length
          some (':' :: blanks ++ replacement, behind)
  | _, _ => none

def redactStructuredFields (text : Text) : Text := rewrite structuredFieldAt text

def endsParameter (character : Char) : Bool := character ∈ ['&', '|', '\r', '\n', '\t', ' ', '\'', '"', '<', '>']

def namedParameterAt : Rule Char
  | before, '=' :: rest =>
    if sensitiveParameter (before.rtakeWhile structuredKeyCharacter) then
      some ('=' :: replacement, rest.dropWhile fun c => !endsParameter c)
    else none
  | _, _ => none

def redactNamedParameters (text : Text) : Text := rewrite namedParameterAt text

end Fields

section Urls

def redactPair (pair : Text) : Text :=
  match cutAt ['='] pair with
  | some (name, _) => if sensitiveParameter name then name ++ '=' :: replacement else pair
  | none => pair

def redactQuery (query : Text) : Text := ['&'].intercalate ((split query '&').map redactPair)

-- The scheme, the two slashes and what stands behind them, without the user information.
def withoutUserinfo (front behind : Text) : Text × Text :=
  let authority := behind.takeWhile fun c => c ∉ ['/', '?', '#']
  let rest := behind.dropWhile fun c => c ∉ ['/', '?', '#']
  (front ++ chars "://" ++ (if '@' ∈ authority then authority.rtakeWhile fun c => c ≠ '@' else authority), rest)

def redactUrl (url : Text) : Text :=
  let scheme := urlScheme url
  if opaqueSecretScheme scheme then scheme ++ chars "://<redacted>"
  else
    match cutAt (chars "://") url with
    | none => redactNamedParameters url
    | some (front, behind) =>
      let (origin, rest) := withoutUserinfo front behind
      if (scheme = chars "http" ∨ scheme = chars "https") ∧ rest ≠ [] then origin ++ chars "/<redacted>"
      else
        match cutAt ['?'] (origin ++ rest) with
        | none => origin ++ rest
        | some (address, query) =>
          redactNamedParameters (address ++ '?' :: redactQuery (query.takeWhile fun c => c ≠ '#') ++
            query.dropWhile fun c => c ≠ '#')

def urlSchemes : List Text :=
  ["http://", "https://", "socks4://", "socks4a://", "socks5://", "socks5h://", "ss://", "ssr://", "ssd://", "vmess://", "vless://",
    "trojan://", "hysteria://", "hysteria2://", "hy2://", "tuic://", "wireguard://", "data:"].map chars

def urlAt : Rule Char := fun _ text =>
  if urlSchemes.any fun scheme => startsWith (toLower text) scheme then
    some (redactUrl (text.takeWhile fun c => !isUrlTerminator c), text.dropWhile fun c => !isUrlTerminator c)
  else none

end Urls

section Headers

def headerNames : List Text := ["proxy-authorization", "authorization", "set-cookie", "cookie"].map chars

-- What stands behind a header's value, folded lines being part of it.
def headerValueEnd : Text → Text
  | [] => []
  | '\r' :: '\n' :: c :: rest => if c = ' ' ∨ c = '\t' then headerValueEnd rest else '\r' :: '\n' :: c :: rest
  | '\r' :: c :: rest => if c = ' ' ∨ c = '\t' then headerValueEnd rest else '\r' :: c :: rest
  | '\n' :: c :: rest => if c = ' ' ∨ c = '\t' then headerValueEnd rest else '\n' :: c :: rest
  | [c] => if isLineBreak c then [c] else []
  | _ :: rest => headerValueEnd rest

def headerBoundary (before : Text) : Bool :=
  match before.getLast? with
  | none => true
  | some character => !character.isAlphanum && character ≠ '_' && character ≠ '-'

def headerAt : Rule Char := fun before text =>
  if headerBoundary before ∧ !insideStructuredContainerOnLine before then
    match headerNames.find? fun name => startsWith (toLower text) (name ++ [':']) with
    | some name => some (text.take (name.length + 1) ++ chars " <redacted>", headerValueEnd (text.drop (name.length + 1)))
    | none => none
  else none

def redactHeaders (text : Text) : Text := rewrite headerAt text

end Headers

section Logs

def userMarker : Text := chars " with user '"

def curlAuthUserAt : Rule Char := fun _ text =>
  if startsWith (toLower text) userMarker then
    let value := text.drop userMarker.length
    let scope := match cutAt userMarker (toLower value) with
      | some (inside, _) => value.take inside.length
      | none => value
    let behind := value.drop scope.length
    some (text.take userMarker.length ++ replacement,
      if '\'' ∈ scope then '\'' :: scope.rtakeWhile (fun c => c ≠ '\'') ++ behind else behind)
  else none

def redactCurlAuthUser (text : Text) : Text := rewrite curlAuthUserAt text

def redactSensitiveLogText (text : Text) : Text :=
  rewrite urlAt (redactCurlAuthUser (redactStructuredFields (redactNamedParameters (redactHeaders text))))

example : redactSensitiveLogText (chars "cookie: a=b\n c\nmode: x http://u:p@h.org/q?k=v") =
    chars "cookie: <redacted>\nmode: x http://h.org/<redacted>" := by
  decide

def summarizeSensitiveTextForLog (value : Text) : Text := chars "length=" ++ decimal value.length

def summarizeUrlForLog (value : Text) : Text :=
  let scheme := urlScheme value
  let host :=
    match cutAt (chars "://") value with
    | some (_, behind) =>
      let authority := behind.takeWhile fun c => c ∉ ['/', '?', '#']
      let authority := if '@' ∈ authority then authority.rtakeWhile fun c => c ≠ '@' else authority
      if (scheme = chars "http" ∨ scheme = chars "https") ∧ safeAuthorityForLog authority then chars " host=" ++ authority else []
    | none => []
  chars "scheme=" ++ (if scheme = [] then chars "opaque" else scheme) ++ host ++ chars " " ++ summarizeSensitiveTextForLog value

end Logs

end SubConverter.Utils.Redact
