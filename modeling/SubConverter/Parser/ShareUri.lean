import SubConverter.Handler.ProxyIdentity

set_option autoImplicit false

namespace SubConverter.Parser.ShareUri

open Handler (split startsWith endsWith toInt cutAtLast)

section Texts

def shareUriHexValue (ch : Char) : Option Nat := Handler.hexDigit ch

/-- A character that was read; line breaks are left out. -/
def pushBack (ch : Char) (decoded : Text) : Text := if ch = '\r' ∨ ch = '\n' then decoded else ch :: decoded

def decodeShareUriUserInfo : Text → Text
  | [] => []
  | '%' :: high :: low :: rest =>
    match shareUriHexValue high, shareUriHexValue low with
    | some high, some low => pushBack (Char.ofNat (high <<< 4 ||| low)) (decodeShareUriUserInfo rest)
    | _, _ => '%' :: decodeShareUriUserInfo (high :: low :: rest)
  | ch :: rest => pushBack ch (decodeShareUriUserInfo rest)

def validSharePort (port : Text) : Bool :=
  if port = [] ∨ 5 < port.length ∨ port.all Char.isDigit = false then false
  else 1 ≤ toInt port 0 && toInt port 0 ≤ 65535

end Texts

section Ports

def validHysteria2PortToken (token : Text) : Option (Nat × Text) :=
  match cutAt ['-'] token with
  | none => if validSharePort token then some ((toInt token 0).toNat % 2 ^ 16, []) else none
  | some (start, last) =>
    if start = [] ∨ last = [] ∨ '-' ∈ last then none
    else if !validSharePort start || !validSharePort last then none
    else if toInt last 0 < toInt start 0 then none
    else
      some ((toInt start 0).toNat % 2 ^ 16,
        if toInt start 0 < toInt last 0 then decimal (toInt start 0 + 1).toNat ++ '-' :: last else [])

def remainingPorts : List Text → Option (List Text)
  | [] => some []
  | token :: rest => do
    let _ ← validHysteria2PortToken token
    let remaining ← remainingPorts rest
    return token :: remaining

/-- The end of `parseModernShareUri` where a list of ports is allowed: the primary port and the additional ones. -/
def parseHysteria2Ports (portSpec : Text) : Option (Nat × Text) :=
  match split portSpec ',' with
  | [] => none
  | first :: rest => do
    let (primaryPort, firstRemaining) ← validHysteria2PortToken first
    let remaining ← remainingPorts rest
    let remainingPorts := if firstRemaining ≠ [] then firstRemaining :: remaining else remaining
    return (primaryPort, [','].intercalate remainingPorts)

end Ports

section Uris

structure ParsedShareUri where
  user : Text := []
  host : Text := []
  port : Text := []
  query : Text := []
  remark : Text := []
deriving DecidableEq, Repr

def cutOff (mark : Char) (text : Text) : Text × Option Text :=
  match cutAt [mark] text with
  | none => (text, none)
  | some (front, back) => (front, some back)

def hostAndPorts (authority : Text) : Option (Text × Text) :=
  if authority.head? = some '[' then
    match cutAt [']'] authority with
    | none => none
    | some (front, []) => some (front.tail, [])
    | some (front, behind) => if behind.head? ≠ some ':' ∨ behind.length < 2 then none else some (front.tail, behind.tail)
  else
    match cutAtLast ':' authority with
    | none => some (authority, [])
    | some (host, portSpec) => if ':' ∈ host ∨ host = [] ∨ portSpec = [] then none else some (host, portSpec)

/-- The user and the authority; nothing where the user is required and missing, or one of the two is empty. -/
def userAndAuthority (uri : Text) (requireUser : Bool) : Option (Text × Text) :=
  match cutAtLast '@' uri with
  | none => if requireUser then none else some ([], uri)
  | some (user, authority) => if user = [] ∨ authority = [] then none else some (decodeShareUriUserInfo user, authority)

/-- `parseModernShareUri` up to the ports: what it has read, and the port specification. -/
def parseModernShareHead (uri scheme : Text) (requireUser : Bool) (defaultPort : Text) : Option (ParsedShareUri × Text) :=
  let start := scheme ++ chars "://"
  if !startsWith uri start then none
  else
    let (uri, fragment) := cutOff '#' (uri.drop start.length)
    let (uri, query) := cutOff '?' uri
    let uri := if endsWith uri ['/'] then uri.dropLast else uri
    if uri = [] ∨ '/' ∈ uri then none
    else do
      let (user, authority) ← userAndAuthority uri requireUser
      let (host, portSpec) ← hostAndPorts authority
      if host = [] then none
      else
        let parsed : ParsedShareUri :=
          { user := user, host := host, query := query.getD [], remark := (fragment.map decodeShareUriUserInfo).getD [] }
        return (parsed, if portSpec = [] then defaultPort else portSpec)

def parseModernShareUri (uri scheme : Text) (requireUser : Bool) (defaultPort : Text) (allowHysteria2Ports : Bool) :
    Option (ParsedShareUri × Text) := do
  let (parsed, portSpec) ← parseModernShareHead uri scheme requireUser defaultPort
  if !allowHysteria2Ports then
    if !validSharePort portSpec then none
    else if !requireUser || parsed.user ≠ [] then return ({ parsed with port := portSpec }, [])
    else none
  else
    let (primaryPort, additionalPorts) ← parseHysteria2Ports portSpec
    return ({ parsed with port := decimal primaryPort }, additionalPorts)

example : parseModernShareUri (chars "hysteria2://secret@host:443-445,500/?sni=a#b") (chars "hysteria2") false (chars "443") true =
    some ({ user := chars "secret", host := chars "host", port := chars "443", query := chars "sni=a", remark := ['b'] },
      chars "444-445,500") := by
  decide

end Uris

end SubConverter.Parser.ShareUri
