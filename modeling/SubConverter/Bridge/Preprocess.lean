import SubConverter.Bridge.GoText

set_option autoImplicit false

namespace SubConverter.Bridge

open Wire (Bytes)
open Utf8

/-- Nothing when an index is out of range, which stops the process. -/
def normalizeEncodedUserinfoSeparator (line : Bytes) : Option Bytes :=
  match cutAt (ascii "://") line with
  | none => some line
  | some (scheme, body) =>
    if !equalFold scheme (ascii "ss") && !equalFold scheme (ascii "tuic") then some line
    else do
      let authority ← match indexAny body (ascii "/?#") with
        | some stop => slice body 0 stop
        | none => some body
      match lastIndexByte authority 0x40 with
      | none => some line
      | some sign => do
        let userinfo ← slice authority 0 sign
        if 0x3a ∈ userinfo then some line
        else
          match index (toLower userinfo) (ascii "%3a") with
          | none => some line
          | some colon => do
            let before ← slice userinfo 0 colon
            let after ← slice userinfo (colon + 3) userinfo.length
            let rest ← slice body sign body.length
            return scheme ++ ascii "://" ++ before ++ ascii ":" ++ after ++ rest

def firstQueryValue (values : List (Bytes × Bytes)) (keys : List Bytes) : Bytes :=
  ((keys.map (Values.get values)).find? fun value => value ≠ []).getD []

def decodeLooseBase64 (value : Bytes) : Option Bytes :=
  [rawURLEncoding, urlEncoding, rawStdEncoding, stdEncoding].findSome? fun encoding => encoding.decodeString value

def splitHostPortLoose (value : Bytes) : Option (Bytes × Bytes) :=
  match lastIndexByte value 0x3a with
  | none => none
  | some colon =>
    if colon = 0 ∨ colon + 1 = value.length then none
    else do
      let host ← slice value 0 colon
      let port ← slice value (colon + 1) value.length
      return (trim host (ascii "[]"), port)

structure LegacyVMess where
  cipher : Bytes
  uuid : Bytes
  server : Bytes
  port : Bytes
  query : List (Bytes × Bytes)

def legacyVMess (limit : Option Nat) (line : Bytes) : Option LegacyVMess :=
  if !hasPrefix line (ascii "vmess://") then none
  else do
    let (encoded, rawQuery) ← cutAt [0x3f] (line.drop 8)
    if encoded = [] ∨ rawQuery = [] then none
    else do
      let decoded ← decodeLooseBase64 encoded
      let (cipher, remainder) ← cutAt (ascii ":") decoded
      let (uuid, serverPort) ← cutAt (ascii "@") remainder
      let (server, port) ← splitHostPortLoose serverPort
      if uuid = [] ∨ server = [] ∨ port = [] then none
      else do
        let _ ← atoi port
        let query ← parseQuery limit rawQuery
        return ⟨cipher, uuid, server, port, query⟩

def orElse (value default : Bytes) : Bytes := if value = [] then default else value

def LegacyVMess.transport (link : LegacyVMess) : Bytes × Bytes × Bytes × Bytes :=
  let first := firstQueryValue link.query
  let obfs := toLower (first [ascii "obfs"])
  if obfs = ascii "websocket" ∨ obfs = ascii "ws" then
    (ascii "ws", ascii "none", first [ascii "obfsParam", ascii "host", ascii "wsHost"], first [ascii "path", ascii "wspath"])
  else if obfs = [] then
    let network := first [ascii "network", ascii "net", ascii "type"]
    (if network = [] then ascii "tcp" else toLower network, orElse (first [ascii "headerType"]) (ascii "none"),
      first [ascii "wsHost", ascii "host"], first [ascii "wspath", ascii "path"])
  else if obfs = ascii "none" then (ascii "tcp", ascii "none", [], [])
  else (ascii "tcp", obfs, [], [])

def LegacyVMess.tls (link : LegacyVMess) : Bytes :=
  let value := toLower (firstQueryValue link.query [ascii "tls", ascii "security"])
  if value = ascii "1" ∨ value = ascii "true" ∨ value = ascii "tls" then ascii "tls" else []

def optionalMember (key value : Bytes) : List (Bytes × Bytes) := if value = [] then [] else [(key, value)]

def LegacyVMess.members (link : LegacyVMess) : List (Bytes × Bytes) :=
  let first := firstQueryValue link.query
  let (network, headerType, host, path) := link.transport
  [(ascii "add", link.server), (ascii "aid", orElse (first [ascii "aid", ascii "alterId"]) (ascii "0"))] ++
    optionalMember (ascii "alpn") (first [ascii "alpn"]) ++
    [(ascii "host", host), (ascii "id", link.uuid), (ascii "net", network), (ascii "path", path),
      (ascii "port", link.port),
      (ascii "ps", orElse (first [ascii "remarks", ascii "remark", ascii "name"]) (link.server ++ ascii ":" ++ link.port)),
      (ascii "scy", link.cipher)] ++
    optionalMember (ascii "sni") (first [ascii "sni", ascii "peer"]) ++
    [(ascii "tls", link.tls), (ascii "type", headerType), (ascii "v", ascii "2")]

def normalizeLegacyShadowrocketVMess (limit : Option Nat) (line : Bytes) : Bytes :=
  match legacyVMess limit line with
  | none => line
  | some link => ascii "vmess://" ++ stdEncoding.encodeToString (jsonObject link.members)

def unwrap (line : Bytes) : Bytes :=
  if contains line (ascii "://") then line
  else
    match queryUnescape line with
    | some decoded => if contains decoded (ascii "://") then decoded else line
    | none => line

def preprocessLine (limit : Option Nat) (raw : Bytes) : Option Bytes :=
  let line := trimRight raw (ascii " \r")
  if line = [] then some line
  else do
    let separated ← normalizeEncodedUserinfoSeparator (unwrap line)
    return normalizeLegacyShadowrocketVMess limit separated

def preprocessSubscription (limit : Option Nat) (subscription : Bytes) : Option Bytes := do
  let result ← (subscription.splitOn 0x0a).mapM (preprocessLine limit)
  return [0x0a].intercalate result

end SubConverter.Bridge
