import SubConverter.Server.ForwardedHeaders

set_option autoImplicit false

namespace SubConverter.Server

open Handler (Address Family parseAddress trimWhitespace toLower digitsValue)

def kMaxTrustedProxyCidrs : Nat := 64

def kMaxSelectedHeaderBytes : Nat := 2048

section Networks

structure Cidr where
  network : Address
  prefixLength : Nat
deriving DecidableEq, Repr

/-- The byte with all but its first `remaining` bits cleared. -/
def maskByte (remaining byte : Nat) : Nat := byte &&& (0xff <<< (8 - remaining)) % 256

def Cidr.contains (cidr : Cidr) (address : Address) : Bool :=
  let fullBytes := cidr.prefixLength / 8
  let remaining := cidr.prefixLength % 8
  if address.family ≠ cidr.network.family then false
  else if cidr.network.bytes.take fullBytes ≠ address.bytes.take fullBytes then false
  else if remaining = 0 then true
  else maskByte remaining (cidr.network.bytes.getD fullBytes 0) = maskByte remaining (address.bytes.getD fullBytes 0)

def familyBits : Family → Nat
  | .ipv4 => 32
  | .ipv6 => 128

def maskNetwork (network : Address) (bits : Nat) : Address :=
  let fullBytes := bits / 8
  let remaining := bits % 8
  let masked := if remaining = 0 then network.bytes else network.bytes.modify fullBytes (maskByte remaining)
  let clearFrom := fullBytes + if remaining = 0 then 0 else 1
  let byteCount := familyBits network.family / 8
  { network with bytes := masked.mapIdx fun i byte => if clearFrom ≤ i ∧ i < byteCount then 0 else byte }

-- The prefix is read no further than to the first value above 128.
def prefixBits (bits : Nat) : Text → Nat
  | [] => bits
  | c :: rest =>
    if 128 < bits * 10 + (c.toNat - 48) then bits * 10 + (c.toNat - 48) else prefixBits (bits * 10 + (c.toNat - 48)) rest

def parseCidr (raw : Text) : Except Text Cidr :=
  let value := trimWhitespace raw
  match cutAt ['/'] value with
  | none => .error (chars "trusted proxy must use CIDR notation: " ++ value)
  | some (address, bits) =>
    if '/' ∈ bits then .error (chars "trusted proxy must use CIDR notation: " ++ value)
    else
      match parseAddress address with
      | none => .error (chars "invalid trusted proxy address: " ++ value)
      | some network =>
        if bits = [] ∨ bits.all Char.isDigit = false then .error (chars "invalid trusted proxy prefix: " ++ value)
        else if prefixBits 0 bits = 0 ∨ familyBits network.family < prefixBits 0 bits then
          .error (chars "trusted proxy CIDR must not be /0 and must fit its address family: " ++ value)
        else .ok { network := maskNetwork network (prefixBits 0 bits), prefixLength := prefixBits 0 bits }

end Networks

section Policies

inductive Header where
  | none
  | xForwardedFor
  | forwarded
  | xRealIp
  | cfConnectingIp
  | trueClientIp
deriving DecidableEq, Repr

def parseHeader (raw : Text) : Except Text Header :=
  let value := toLower (trimWhitespace raw)
  if value = [] ∨ value = chars "none" then .ok .none
  else if value = chars "x-forwarded-for" then .ok .xForwardedFor
  else if value = chars "forwarded" then .ok .forwarded
  else if value = chars "x-real-ip" then .ok .xRealIp
  else if value = chars "cf-connecting-ip" then .ok .cfConnectingIp
  else if value = chars "true-client-ip" then .ok .trueClientIp
  else .error (chars "unsupported dashboard client IP header: " ++ value)

structure Policy where
  header : Header
  trustedProxyCidrs : List Cidr
deriving DecidableEq, Repr

def Policy.enabled (policy : Policy) : Bool := policy.header ≠ .none && policy.trustedProxyCidrs ≠ []

def isTrusted (address : Address) (policy : Policy) : Bool := policy.trustedProxyCidrs.any fun cidr => cidr.contains address

def parseCidrs : List Text → Except Text (List Cidr)
  | [] => .ok []
  | raw :: rest => do
    let cidr ← parseCidr raw
    let cidrs ← parseCidrs rest
    return cidr :: cidrs

def makePolicy (header : Text) (trustedProxyCidrs : List Text) : Except Text Policy :=
  if kMaxTrustedProxyCidrs < trustedProxyCidrs.length then .error (chars "too many dashboard trusted proxy CIDRs")
  else do
    let header ← parseHeader header
    let cidrs ← parseCidrs trustedProxyCidrs
    if header = .none ∨ cidrs = [] then return ⟨.none, []⟩ else return ⟨header, cidrs⟩

end Policies

section Resolving

-- An address that is not valid is none at all.
structure Resolution where
  address : Option Address
  usedForwardedHeader : Bool
deriving DecidableEq, Repr

def selectedChain (header : Header) (value : Text) : Option (List Address) :=
  match header with
  | .xForwardedFor => parseXForwardedFor value
  | .forwarded => parseForwarded value
  | .none | .xRealIp | .cfConnectingIp | .trueClientIp => (parseAddress value).map fun address => [address]

def Header.isList : Header → Bool
  | .xForwardedFor | .forwarded => true
  | .none | .xRealIp | .cfConnectingIp | .trueClientIp => false

def resolve (peer : Option Address) (selectedHeaderValues : List Text) (policy : Policy) : Resolution :=
  let fallback : Resolution := ⟨peer, false⟩
  if peer.all (fun peer => !isTrusted peer policy) || !policy.enabled then fallback
  else
    match selectedHeaderValues with
    | [value] =>
      if kMaxSelectedHeaderBytes < value.length then fallback
      else
        match selectedChain policy.header value with
        | none => fallback
        | some chain =>
          if policy.header.isList then
            match chain.reverse.find? fun address => !isTrusted address policy with
            | some address => ⟨some address, true⟩
            | none => fallback
          else ⟨chain.head?, true⟩
    | _ => fallback

end Resolving

end SubConverter.Server
