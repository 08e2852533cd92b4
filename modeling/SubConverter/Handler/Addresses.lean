import SubConverter.Handler.CacheIdentity

set_option autoImplicit false

namespace SubConverter.Handler

def isSpace (c : Char) : Bool := c ∈ [' ', '\t', '\x0c', '\x0b', '\n', '\r']

def trimWhitespace (text : Text) : Text := strip isSpace text

-- A text of nothing but the target is left as it is.
def trimOf (text : Text) (target : Char) : Text := if text.all (· = target) then text else strip (· = target) text

def trim (text : Text) : Text := trimOf text ' '

def getLineBreak (content : Text) : Char := if '\n' ∈ content then '\n' else '\r'

def startsWith (hay needle : Text) : Bool := needle.isPrefixOf hay

def endsWith (hay needle : Text) : Bool := needle.isSuffixOf hay

-- The last part is left out when it is empty.
def split (text : Text) (separator : Char) : List Text :=
  let parts := text.splitOn separator
  if parts.getLast? = some [] then parts.dropLast else parts

theorem mem_splitOn_of_mem_split {text part : Text} {separator : Char} (there : part ∈ split text separator) :
    part ∈ text.splitOn separator := by
  unfold split at there
  simp only at there
  split at there
  · exact List.mem_of_mem_dropLast there
  · exact there

def digitsValue (digits : Text) : Nat := digits.foldl (fun value c => value * 10 + (c.toNat - 48)) 0

def atoi (text : Text) : Int :=
  match text.dropWhile isSpace with
  | '-' :: rest => -(digitsValue (rest.takeWhile Char.isDigit) : Int)
  | '+' :: rest => digitsValue (rest.takeWhile Char.isDigit)
  | rest => digitsValue (rest.takeWhile Char.isDigit)

def toInt (text : Text) (default : Int) : Int := if text = [] then default else atoi text

-- 25[0-5]|2[0-4]\d|[0-1]?\d?\d
def octetMatches : Text → Bool
  | [c] => c.isDigit
  | [b, c] => b.isDigit && c.isDigit
  | [a, b, c] =>
    (a == '2' && b == '5' && c.isDigit && c ≤ '5') || (a == '2' && b.isDigit && b ≤ '4' && c.isDigit) ||
      ((a == '0' || a == '1') && b.isDigit && c.isDigit)
  | _ => false

-- An octet holds no dot, so the expression matches what the dots cut into four octets.
def isIPv4 (address : Text) : Bool :=
  let octets := address.splitOn '.'
  octets.length == 4 && octets.all octetMatches

/-- `None` when an octet is out of range; the value is shifted as a 32-bit word. -/
def octetsValue : List Text → Nat → Option Nat
  | [], value => some value
  | octet :: rest, value =>
    let part := toInt octet (-1)
    if part < 0 ∨ 255 < part then none
    else octetsValue rest ((value <<< 8) % 2 ^ 32 ||| part.toNat)

def parseIpv4Address (address : Text) : Option Nat :=
  if isIPv4 address then
    let octets := split address '.'
    if octets.length = 4 then octetsValue octets 0 else none
  else none

def ipv4InCidr (address network bits : Nat) : Bool :=
  let mask := if bits = 0 then 0 else (0xffffffff <<< (32 - bits)) % 2 ^ 32
  address &&& mask == network

def blockedNetworks : List (Nat × Nat) :=
  [(0x00000000, 8), (0x0a000000, 8), (0x64400000, 10), (0x7f000000, 8), (0xa9fe0000, 16), (0xac100000, 12),
    (0xc0a80000, 16), (0xc6120000, 15), (0xe0000000, 4), (0xf0000000, 4)]

def isBlockedIpv4 (address : Text) : Bool :=
  match parseIpv4Address address with
  | none => false
  | some ip => blockedNetworks.any (fun network => ipv4InCidr ip network.1 network.2) || ip == 0xffffffff

def isFakeIpv4 (address : Text) : Bool :=
  match parseIpv4Address address with
  | none => false
  | some ip => ipv4InCidr ip 0xc6120000 15

def isBlockedIpv6 (address : Text) : Bool :=
  let value := toLower (trimWhitespace address)
  if value = chars "::" ∨ value = chars "::1" then true
  else if startsWith value (chars "fe80:") || startsWith value (chars "fe80::") then true
  else if startsWith value ['f', 'c'] || startsWith value ['f', 'd'] then true
  else
    match afterLast ':' value with
    | some mapped => isBlockedIpv4 mapped
    | none => false

def isBlockedIpAddress (address : Text) (allowFakeIp : Bool) : Bool :=
  if allowFakeIp && isFakeIpv4 address then false else isBlockedIpv4 address || isBlockedIpv6 address

def isBlockedHostname (host : Text) : Bool :=
  host = chars "localhost" || endsWith host (chars ".localhost") || endsWith host (chars ".local") ||
    endsWith host (chars ".localdomain") || endsWith host (chars ".home.arpa")

structure Quad where
  a : Nat
  b : Nat
  c : Nat
  d : Nat
deriving DecidableEq, Repr

-- inet_pton takes decimal octets without leading zeros.
def ptonOctet (text : Text) : Option Nat :=
  if text ≠ [] ∧ text.length ≤ 3 ∧ text.all Char.isDigit ∧ (text.head? = some '0' → text.length = 1) ∧
      digitsValue text ≤ 255 then some (digitsValue text)
  else none

def inetPton4 (text : Text) : Option Quad :=
  match text.splitOn '.' with
  | [a, b, c, d] => do
    let a ← ptonOctet a
    let b ← ptonOctet b
    let c ← ptonOctet c
    let d ← ptonOctet d
    return ⟨a, b, c, d⟩
  | _ => none

def hexDigit (c : Char) : Option Nat :=
  if '0' ≤ c ∧ c ≤ '9' then some (c.toNat - 48)
  else if 'a' ≤ c ∧ c ≤ 'f' then some (c.toNat - 87)
  else if 'A' ≤ c ∧ c ≤ 'F' then some (c.toNat - 55)
  else none

def isHex (c : Char) : Bool := (hexDigit c).isSome

def hexValue (digits : Text) : Nat := digits.foldl (fun value c => value * 16 + (hexDigit c).getD 0) 0

def hexGroup (text : Text) : Option Nat :=
  if text ≠ [] ∧ text.length ≤ 4 ∧ text.all isHex then some (hexValue text) else none

def hexGroups : List Text → Option (List Nat)
  | [] => some []
  | part :: rest => do
    let group ← hexGroup part
    let groups ← hexGroups rest
    return group :: groups

def Quad.groups (quad : Quad) : List Nat := [quad.a * 256 + quad.b, quad.c * 256 + quad.d]

-- The last part may be a dotted quad.
def tailGroups : List Text → Option (List Nat)
  | [] => some []
  | [part] =>
    match hexGroup part with
    | some group => some [group]
    | none => (inetPton4 part).map Quad.groups
  | part :: next :: rest => do
    let group ← hexGroup part
    let groups ← tailGroups (next :: rest)
    return group :: groups

def colonParts (text : Text) : List Text := if text = [] then [] else text.splitOn ':'

def inetPton6 (text : Text) : Option (List Nat) :=
  match cutAt [':', ':'] text with
  | some (left, right) => do
    let high ← hexGroups (colonParts left)
    let low ← tailGroups (colonParts right)
    if high.length + low.length ≤ 7 then
      return high ++ List.replicate (8 - high.length - low.length) 0 ++ low
    else none
  | none => do
    let groups ← tailGroups (colonParts text)
    if groups.length = 8 then return groups else none

inductive Family where
  | ipv4
  | ipv6
deriving DecidableEq, Repr

structure Address where
  family : Family
  bytes : List Nat
deriving DecidableEq, Repr

def isMappedIpv4 (bytes : List Nat) : Bool :=
  (bytes.take 10).all (· == 0) && bytes.getD 10 0 == 0xff && bytes.getD 11 0 == 0xff

def groupBytes (groups : List Nat) : List Nat := groups.flatMap fun group => [group / 256, group % 256]

-- What a C function sees of a string: the text in front of its first NUL.
def cString (text : Text) : Text := text.takeWhile (· ≠ '\x00')

def parseAddress (raw : Text) : Option Address :=
  let value := trimWhitespace raw
  if value = [] ∨ 45 < value.length ∨ '%' ∈ value then none
  else
    match inetPton4 (cString value) with
    | some quad => some ⟨.ipv4, [quad.a, quad.b, quad.c, quad.d] ++ List.replicate 12 0⟩
    | none =>
      match inetPton6 (cString value) with
      | none => none
      | some groups =>
        let bytes := groupBytes groups
        if isMappedIpv4 bytes then some ⟨.ipv4, bytes.drop 12 ++ List.replicate 12 0⟩ else some ⟨.ipv6, bytes⟩

inductive LoopbackKind where
  | none
  | hostname
  | ipv4
  | ipv6
deriving DecidableEq, Repr

def classifyLoopbackHost (host : Text) : LoopbackKind :=
  if host = chars "localhost" || endsWith host (chars ".localhost") then .hostname
  else
    match parseAddress host with
    | Option.none => .none
    | some address =>
      if address.family = .ipv4 ∧ address.bytes.getD 0 0 = 127 then
        if ':' ∈ host then .ipv6 else .ipv4
      else if address.family ≠ .ipv6 ∨ address.bytes.getD 15 0 ≠ 1 then .none
      else if (address.bytes.take 15).all (· == 0) then .ipv6
      else .none

end SubConverter.Handler
