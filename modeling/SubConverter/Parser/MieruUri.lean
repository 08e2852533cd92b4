import SubConverter.Lib.Stripped
import SubConverter.Bridge.GoText

set_option autoImplicit false

namespace SubConverter.Parser

open Wire (Bytes)
open Bridge (ascii)

section Bytes

def code (c : Char) : UInt8 := UInt8.ofNat c.toNat

def isControl (ch : UInt8) : Bool := ch.toNat < 0x20 || ch.toNat = 0x7f

def isSpace (ch : UInt8) : Bool := ch.toNat = 0x20 || (0x09 ≤ ch.toNat && ch.toNat ≤ 0x0d)

def isDigit (ch : UInt8) : Bool := 0x30 ≤ ch.toNat && ch.toNat ≤ 0x39

def isAlnum (ch : UInt8) : Bool :=
  isDigit ch || (0x41 ≤ ch.toNat && ch.toNat ≤ 0x5a) || (0x61 ≤ ch.toNat && ch.toNat ≤ 0x7a)

def hexValue (ch : UInt8) : Option Nat :=
  let n := ch.toNat
  if 0x30 ≤ n ∧ n ≤ 0x39 then some (n - 0x30)
  else if 0x61 ≤ n ∧ n ≤ 0x66 then some (n - 0x61 + 10)
  else if 0x41 ≤ n ∧ n ≤ 0x46 then some (n - 0x41 + 10)
  else none

def percentDecode (plusAsSpace : Bool) : Bytes → Option Bytes
  | [] => some []
  | ch :: rest =>
    if ch = code '%' then
      match rest with
      | first :: second :: more => do
        let high ← hexValue first
        let low ← hexValue second
        let ch := UInt8.ofNat (high * 16 + low)
        if isControl ch then none else (percentDecode plusAsSpace more).map (ch :: ·)
      | _ => none
    else
      let ch := if plusAsSpace ∧ ch = code '+' then code ' ' else ch
      if isControl ch then none else (percentDecode plusAsSpace rest).map (ch :: ·)

def hexDigit (n : Nat) : UInt8 := (ascii "0123456789ABCDEF").getD n 0

def isUnreserved (ch : UInt8) : Bool := isAlnum ch || ch ∈ ascii "-._~"

def encodeByte (ch : UInt8) : Bytes :=
  if isUnreserved ch then [ch] else [code '%', hexDigit (ch.toNat / 16), hexDigit (ch.toNat % 16)]

def percentEncode (value : Bytes) : Bytes := value.flatMap encodeByte

-- `std::to_string`
def toString (n : Nat) : Bytes := (decimal n).map code

def parseUnsigned (value : Bytes) (minimum maximum : Nat) : Option Nat :=
  if value = [] ∨ !value.all isDigit then none
  else do
    let result ← value.foldlM
      (fun result ch =>
        let digit := ch.toNat - 0x30
        if (maximum - digit) / 10 < result then none else some (result * 10 + digit)) 0
    if result < minimum then none else some result

end Bytes

section TrafficPattern

-- The shift grows by seven for every byte that has one behind it.
def readVarint : Nat → Nat → Bytes → Option (Nat × Bytes)
  | _, _, [] => none
  | shift, value, byte :: rest =>
    if 64 ≤ shift then none
    else if shift = 63 ∧ 1 < byte.toNat then none
    else
      let value := value ||| (byte.toNat &&& 0x7f) <<< shift
      if byte.toNat &&& 0x80 = 0 then some (value, rest) else readVarint (shift + 7) value rest

-- What stands behind the first field.
def protobufField (data : Bytes) : Option Bytes := do
  let (tag, rest) ← readVarint 0 0 data
  if tag >>> 3 = 0 ∨ 0x1fffffff < tag >>> 3 then none
  else
    match tag &&& 7 with
    | 0 => (readVarint 0 0 rest).map Prod.snd
    | 1 => if rest.length < 8 then none else some (rest.drop 8)
    | 2 => do
      let (length, rest) ← readVarint 0 0 rest
      if rest.length < length then none else some (rest.drop length)
    | 5 => if rest.length < 4 then none else some (rest.drop 4)
    | _ => none

-- Every field has a byte at least, so the length of the data is fuel enough.
def protobufFields : Nat → Bytes → Bool
  | _, [] => true
  | 0, _ :: _ => false
  | fuel + 1, data => (protobufField data).any (protobufFields fuel)

def validProtobufWire (data : Bytes) : Bool := data ≠ [] && protobufFields data.length data

def base64Alphabet : Bytes := ascii "ABCDEFGHIJKLMNOPQRSTUVWXYZabcdefghijklmnopqrstuvwxyz0123456789+/"

structure Sextets where
  accumulator : Nat := 0
  bits : Nat := 0
  decoded : Bytes := []

def Sextets.push (s : Sextets) (ch : UInt8) : Option Sextets := do
  let index ← base64Alphabet.idxOf? ch
  let accumulator := (s.accumulator <<< 6 ||| index) % 2 ^ 32
  let bits := s.bits + 6
  if 8 ≤ bits then
    return ⟨accumulator, bits - 8, s.decoded ++ [UInt8.ofNat (accumulator >>> (bits - 8) &&& 0xff)]⟩
  else return ⟨accumulator, bits, s.decoded⟩

def decodeAndValidateProtobufBase64 (value : Bytes) : Bool :=
  let body := value.takeWhile fun ch => ch ≠ code '='
  let padding := value.length - body.length
  if value = [] ∨ value.length % 4 ≠ 0 then false
  else if !(value.drop body.length).all (fun ch => ch = code '=') ∨
      !body.all (fun ch => isAlnum ch || ch = code '+' || ch = code '/') then false
  else if 2 < padding ∨ ¬(padding = 0 ∨ (padding = 1 ∧ body.length % 4 = 3) ∨ (padding = 2 ∧ body.length % 4 = 2)) then false
  else
    match body.foldlM Sextets.push {} with
    | none => false
    | some s =>
      if s.bits ≠ 0 ∧ s.accumulator &&& (1 <<< s.bits - 1) ≠ 0 then false else validProtobufWire s.decoded

example : decodeAndValidateProtobufBase64 (ascii "CAESAmFi") = true := by decide +kernel

end TrafficPattern

section Fields

def validMieruHost (host : Bytes) : Bool :=
  if host = [] ∨ host.any (fun ch => isSpace ch || isControl ch) ∨ host.any (fun ch => ch ∈ ascii "/?#@[]") then false
  else if code ':' ∉ host then true
  else host.all fun ch => (hexValue ch).isSome || ch = code ':' || ch = code '.'

def isValidMieruMultiplexing (value : Bytes) : Bool :=
  value ∈ [[], ascii "MULTIPLEXING_OFF", ascii "MULTIPLEXING_LOW", ascii "MULTIPLEXING_MIDDLE", ascii "MULTIPLEXING_HIGH"]

def isValidMieruHandshakeMode (value : Bytes) : Bool :=
  value ∈ [[], ascii "HANDSHAKE_STANDARD", ascii "HANDSHAKE_NO_WAIT"]

def isValidMieruTrafficPattern (value : Bytes) : Bool := value = [] || decodeAndValidateProtobufBase64 value

structure MieruPortBinding where
  port : Bytes := []
  protocol : Bytes := []
  isRange : Bool := false
deriving DecidableEq, Repr

structure MieruSimpleConfig where
  username : Bytes := []
  password : Bytes := []
  host : Bytes := []
  profile : Bytes := []
  multiplexing : Bytes := []
  handshakeMode : Bytes := []
  trafficPattern : Bytes := []
  remark : Bytes := []
  mtu : UInt16 := 0
  hasUnknownParameters : Bool := false
  portBindings : List MieruPortBinding := []
deriving DecidableEq, Repr

def parseMieruPortBinding (port protocol : Bytes) : Option MieruPortBinding :=
  if protocol ≠ ascii "TCP" ∧ protocol ≠ ascii "UDP" then none
  else
    match cutAt [code '-'] port with
    | none => (parseUnsigned port 1 65535).map fun first => ⟨toString first, protocol, false⟩
    | some (left, right) => do
      if left = [] ∨ right = [] ∨ code '-' ∈ right then none
      else
        let first ← parseUnsigned left 1 65535
        let last ← parseUnsigned right 1 65535
        if last < first then none else some ⟨toString first ++ code '-' :: toString last, protocol, true⟩

end Fields

section Parsing

-- The map of a query, as the list of its entries in the order of the text.
abbrev QueryValues := List (Bytes × Bytes)

def parameterOf (part : Bytes) : Option (Bytes × Bytes) := do
  let (rawKey, rawValue) := (cutAt [code '='] part).getD (part, [])
  let key ← percentDecode true rawKey
  let value ← percentDecode true rawValue
  return (key, value)

def parseQuery (query : Bytes) : Option QueryValues :=
  ((query.splitOn (code '&')).filter fun part => part ≠ []).mapM parameterOf

def queryValues (values : QueryValues) (key : Bytes) : List Bytes :=
  (values.filter fun entry => entry.1 = key).map Prod.snd

def knownMieruQueryKey (key : Bytes) : Bool :=
  key ∈ [ascii "profile", ascii "mtu", ascii "multiplexing", ascii "handshake-mode", ascii "traffic-pattern", ascii "port",
    ascii "protocol"]

def readSingleton (values : QueryValues) (key : Bytes) (required : Bool) : Option Bytes :=
  match queryValues values key with
  | [] => if required then none else some []
  | [value] => if value = [] then none else some value
  | _ => none

structure UriParts where
  username : Bytes
  password : Bytes
  authority : Bytes
  query : Bytes
  fragment : Bytes

def splitUri (uri : Bytes) : Option UriParts := do
  let start := ascii "mierus://"
  if uri.length ≤ start.length ∨ !start.isPrefixOf uri then none
  else
    let (body, fragment) := (cutAt [code '#'] (uri.drop start.length)).getD (uri.drop start.length, [])
    let (body, query) := (cutAt [code '?'] body).getD (body, [])
    if body = [] ∨ code '/' ∈ body then none
    else
      let authority ← afterLast (code '@') body
      let userinfo := body.take (body.length - authority.length - 1)
      if userinfo = [] ∨ authority = [] then none
      else
        let (username, password) ← cutAt [code ':'] userinfo
        if username = [] ∨ password = [] then none else some ⟨username, password, authority, query, fragment⟩

def decodeHost (authority : Bytes) : Option Bytes :=
  if authority.head? = some (code '[') then
    if authority.length < 3 ∨ authority.getLast? ≠ some (code ']') then none
    else percentDecode false (authority.drop 1).dropLast
  else if code ':' ∈ authority then none
  else percentDecode false authority

def parseHost (authority : Bytes) : Option Bytes := do
  let host ← decodeHost authority
  if !validMieruHost host ∨ (authority.head? ≠ some (code '[') ∧ code ':' ∈ host) then none else some host

def parseMtu (mtu : Bytes) : Option UInt16 :=
  if mtu = [] then some 0 else (parseUnsigned mtu 1280 1400).map UInt16.ofNat

def parseBindings (ports protocols : List Bytes) : Option (List MieruPortBinding) :=
  if ports = [] ∨ protocols = [] ∨ ports.length ≠ protocols.length then none
  else (ports.zip protocols).mapM fun pair => parseMieruPortBinding pair.1 pair.2

def parseMieruSimpleUri (uri : Bytes) : Option MieruSimpleConfig := do
  let parts ← splitUri uri
  let remark ← percentDecode false parts.fragment
  let username ← percentDecode false parts.username
  let password ← percentDecode false parts.password
  if username = [] ∨ password = [] then none
  else
    let host ← parseHost parts.authority
    let query ← parseQuery parts.query
    let hasUnknownParameters := query.any fun entry => !knownMieruQueryKey entry.1
    let profile ← readSingleton query (ascii "profile") true
    let multiplexing ← readSingleton query (ascii "multiplexing") false
    let handshakeMode ← readSingleton query (ascii "handshake-mode") false
    let trafficPattern ← readSingleton query (ascii "traffic-pattern") false
    if !isValidMieruMultiplexing multiplexing ∨ !isValidMieruHandshakeMode handshakeMode ∨
        !isValidMieruTrafficPattern trafficPattern then none
    else
      let mtu ← readSingleton query (ascii "mtu") false
      let mtu ← parseMtu mtu
      let portBindings ← parseBindings (queryValues query (ascii "port")) (queryValues query (ascii "protocol"))
      return ⟨username, password, host, profile, multiplexing, handshakeMode, trafficPattern, remark, mtu,
        hasUnknownParameters, portBindings⟩

end Parsing

section Building

def appendQueryParameter (query : List Bytes) (key value : Bytes) : List Bytes :=
  if value = [] then query else query ++ [key ++ code '=' :: percentEncode value]

def buildAuthority (host : Bytes) : Bytes :=
  if code ':' ∈ host then code '[' :: host ++ [code ']'] else percentEncode host

def buildMieruSimpleUri (config : MieruSimpleConfig) : Option Bytes := do
  if config.username = [] ∨ config.password = [] ∨ !validMieruHost config.host ∨ config.profile = [] ∨
      config.hasUnknownParameters ∨ (config.mtu ≠ 0 ∧ (config.mtu < 1280 ∨ 1400 < config.mtu)) ∨
      !isValidMieruMultiplexing config.multiplexing ∨ !isValidMieruHandshakeMode config.handshakeMode ∨
      !isValidMieruTrafficPattern config.trafficPattern ∨ config.portBindings = [] then none
  else
    let bindings ← config.portBindings.mapM fun candidate => parseMieruPortBinding candidate.port candidate.protocol
    let query := appendQueryParameter [] (ascii "profile") config.profile
    let query := if config.mtu ≠ 0 then appendQueryParameter query (ascii "mtu") (toString config.mtu.toNat) else query
    let query := appendQueryParameter query (ascii "multiplexing") config.multiplexing
    let query := appendQueryParameter query (ascii "handshake-mode") config.handshakeMode
    let query := appendQueryParameter query (ascii "traffic-pattern") config.trafficPattern
    let query := bindings.foldl (fun query binding => appendQueryParameter query (ascii "port") binding.port) query
    let query := bindings.foldl (fun query binding => appendQueryParameter query (ascii "protocol") binding.protocol) query
    return ascii "mierus://" ++ percentEncode config.username ++ code ':' :: (percentEncode config.password ++
      code '@' :: (buildAuthority config.host ++ code '?' :: ([code '&'].intercalate query ++
        if config.remark = [] then [] else code '#' :: percentEncode config.remark)))

example :
    (parseMieruSimpleUri (ascii "mierus://u:p%40@[::1]?profile=a+b&port=080&protocol=TCP&mtu=1300#x")).bind buildMieruSimpleUri =
      some (ascii "mierus://u:p%40@[::1]?profile=a%20b&mtu=1300&port=80&protocol=TCP#x") := by
  decide +kernel

end Building

end SubConverter.Parser
