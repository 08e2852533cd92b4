import SubConverter.Lib.Stripped
import SubConverter.Handler.AddressCase
import SubConverter.Handler.CacheIdentity

set_option autoImplicit false

namespace SubConverter.Handler

open Server (Cidr parseCidr)

section Names

/-- `a.b.c.d`, as inet_ntop writes it. -/
def inetNtop4 (bytes : List Nat) : Text := ['.'].intercalate ((bytes.take 4).map decimal)

def hexText (group : Nat) : Text := Nat.toDigits 16 group

def colonText (groups : List Nat) : Text := [':'].intercalate (groups.map hexText)

def bytePairs : List Nat → List Nat
  | high :: low :: rest => (high * 256 + low) :: bytePairs rest
  | _ => []

def zeroRun (groups : List Nat) (start : Nat) : Nat := ((groups.drop start).takeWhile (· = 0)).length

def longestRun (groups : List Nat) : Nat :=
  (List.range 8).foldl (fun best start => if zeroRun groups best < zeroRun groups start then start else best) 0

-- A run of zeros becomes `::`; addresses that hold one of IPv4 end in its dotted form.
def inetNtop6 (bytes : List Nat) : Text :=
  let groups := bytePairs bytes
  let base := longestRun groups
  let run := zeroRun groups base
  if run < 2 then colonText groups
  else if base = 0 ∧ run = 6 then [':', ':'] ++ inetNtop4 (bytes.drop 12)
  else if base = 0 ∧ run = 5 ∧ groups.getD 5 0 = 0xffff then chars "::ffff:" ++ inetNtop4 (bytes.drop 12)
  else colonText (groups.take base) ++ [':', ':'] ++ colonText (groups.drop (base + run))

def addressText (address : Address) : Text :=
  match address.family with
  | .ipv4 => inetNtop4 address.bytes
  | .ipv6 => inetNtop6 address.bytes

def canonicalCidrName (cidr : Cidr) : Text := addressText cidr.network ++ '/' :: decimal cidr.prefixLength

example : canonicalCidrName ⟨⟨.ipv6, [0xfd, 0, 0, 0, 0, 0, 0, 0, 0, 0, 0, 0, 0, 0, 0, 0]⟩, 8⟩ = chars "fd00::/8" := by decide

theorem mem_hexText {c : Char} {group : Nat} (there : c ∈ hexText group) : ∃ digit < 16, c = Nat.digitChar digit := by
  rw [hexText] at there
  induction group using Nat.strongRecOn with
  | ind group ih =>
    by_cases small : group < 16
    · rw [Nat.toDigits_of_lt_base small, List.mem_singleton] at there
      exact ⟨group, small, there⟩
    · rw [Nat.toDigits_of_base_le (by decide) (by omega), List.mem_append, List.mem_singleton] at there
      rcases there with before | last
      · exact ih (group / 16) (by omega) before
      · exact ⟨group % 16, Nat.mod_lt _ (by decide), last⟩

theorem newline_not_mem_hexText (group : Nat) : '\n' ∉ hexText group := by
  intro there
  obtain ⟨digit, small, same⟩ := mem_hexText there
  have other : ∀ digit < 16, Nat.digitChar digit ≠ '\n' := by decide
  exact other digit small same.symm

theorem newline_not_mem_inetNtop4 (bytes : List Nat) : '\n' ∉ inetNtop4 bytes := by
  apply not_mem_intercalate (by decide)
  intro part there
  obtain ⟨byte, -, rfl⟩ := List.mem_map.mp there
  exact not_mem_decimal (by decide)

theorem newline_not_mem_colonText (groups : List Nat) : '\n' ∉ colonText groups := by
  apply not_mem_intercalate (by decide)
  intro part there
  obtain ⟨group, -, rfl⟩ := List.mem_map.mp there
  exact newline_not_mem_hexText group

theorem newline_not_mem_canonicalCidrName (cidr : Cidr) : '\n' ∉ canonicalCidrName cidr := by
  have address : '\n' ∉ addressText cidr.network := by
    unfold addressText
    split
    next => exact newline_not_mem_inetNtop4 _
    next =>
      unfold inetNtop6
      dsimp only
      split_ifs
      next => exact newline_not_mem_colonText _
      next => exact List.not_mem_append (by decide) (newline_not_mem_inetNtop4 _)
      next => exact List.not_mem_append (by decide) (newline_not_mem_inetNtop4 _)
      next =>
        exact List.not_mem_append (List.not_mem_append (newline_not_mem_colonText _) (by decide)) (newline_not_mem_colonText _)
  refine List.not_mem_append address ?_
  rw [List.mem_cons, not_or]
  exact ⟨by decide, not_mem_decimal (by decide)⟩

end Names

section Rules

def kMaxProxyBypassCustomRules : Nat := 64

def matchesDomain (host domain : Text) : Bool := host = domain || endsWith host ('.' :: domain)

def isDomainChar (c : Char) : Bool := c.isAlpha || c.isDigit || c = '-'

def validLabel (label : Text) : Bool :=
  label ≠ [] && label.length ≤ 63 && label.head? ≠ some '-' && label.getLast? ≠ some '-' && label.all isDomainChar

-- An empty label covers a dot at either end, and the letters leave out the star.
def validBypassDomain (domain : Text) : Bool := domain.length ≤ 253 && (domain.splitOn '.').all validLabel

def normalizeBypassDomain (value : Text) : Text :=
  let value := toLower (trimWhitespace value)
  let value := if value.head? = some '.' then value.drop 1 else value
  if value.getLast? = some '.' then value.dropLast else value

inductive BypassError where
  | emptyRule
  | tooManyRules
  | invalidCidr
  | invalidDomain
  | unsupportedRule
deriving DecidableEq, Repr

def BypassError.text : BypassError → Text
  | .emptyRule => chars "proxy_bypass contains an empty rule"
  | .tooManyRules => chars "proxy_bypass exceeds 64 custom rules"
  | .invalidCidr => chars "proxy_bypass has an invalid CIDR rule"
  | .invalidDomain => chars "proxy_bypass has an invalid DOMAIN rule"
  | .unsupportedRule => chars "proxy_bypass has an unsupported rule"

inductive BypassRule where
  | empty
  | loopback
  | privateNetworks
  | lan
  | cgnat
  | cidr (raw : Text)
  | domain (raw : Text)
  | unsupported
deriving DecidableEq, Repr

def bypassRule (token : Text) : BypassRule :=
  let keyword := toUpper token
  if token = [] then .empty
  else if keyword = chars "LOOPBACK" then .loopback
  else if keyword = chars "PRIVATE" then .privateNetworks
  else if keyword = chars "LAN" then .lan
  else if keyword = chars "CGNAT" then .cgnat
  else if startsWith keyword (chars "CIDR:") then .cidr (token.drop 5)
  else if startsWith keyword (chars "DOMAIN:") then .domain (token.drop 7)
  else .unsupported

structure BypassState where
  privateNetworks : Bool := false
  linkLocal : Bool := false
  localNames : Bool := false
  cgnat : Bool := false
  customCidrs : List Cidr := []
  customCidrNames : List Text := []
  customDomains : List Text := []
  customRuleCount : Nat := 0
  unbrokenCidrs : ∀ name ∈ customCidrNames, '\n' ∉ name := by simp
  unbrokenDomains : ∀ domain ∈ customDomains, '\n' ∉ domain := by simp

theorem newline_not_mem_of_valid {domain : Text} (valid : validBypassDomain domain = true) : '\n' ∉ domain := by
  intro there
  rw [validBypassDomain, Bool.and_eq_true, List.all_eq_true] at valid
  have whole : ['.'].intercalate (domain.splitOn '.') = domain := List.intercalate_splitOn '.'
  rw [← whole] at there
  refine not_mem_intercalate (by decide) (fun label member inside => ?_) there
  have letters := valid.2 label member
  simp only [validLabel, Bool.and_eq_true, List.all_eq_true] at letters
  exact absurd (letters.2 '\n' inside) (by decide)

def BypassState.addCidr (s : BypassState) (cidr : Cidr) : BypassState :=
  { s with
    customCidrs := s.customCidrs ++ [cidr]
    customCidrNames := s.customCidrNames ++ [canonicalCidrName cidr]
    customRuleCount := s.customRuleCount + 1
    unbrokenCidrs := by
      rw [List.forall_mem_append, List.forall_mem_singleton]
      exact ⟨s.unbrokenCidrs, newline_not_mem_canonicalCidrName cidr⟩ }

def BypassState.addDomain (s : BypassState) (domain : Text) (valid : validBypassDomain domain = true) : BypassState :=
  { s with
    customDomains := s.customDomains ++ [domain]
    customRuleCount := s.customRuleCount + 1
    unbrokenDomains := by
      rw [List.forall_mem_append, List.forall_mem_singleton]
      exact ⟨s.unbrokenDomains, newline_not_mem_of_valid valid⟩ }

-- A rule that cannot be read leaves those before it in the policy.
def readToken (s : BypassState) (token : Text) : Except (BypassError × BypassState) BypassState :=
  match bypassRule token with
  | .empty => .error (.emptyRule, s)
  | .loopback => .ok s
  | .privateNetworks => .ok { s with privateNetworks := true }
  | .lan => .ok { s with privateNetworks := true, linkLocal := true, localNames := true }
  | .cgnat => .ok { s with cgnat := true }
  | .cidr raw =>
    if kMaxProxyBypassCustomRules < s.customRuleCount + 1 then .error (.tooManyRules, s)
    else
      match parseCidr (trimWhitespace raw) with
      | .error _ => .error (.invalidCidr, s)
      | .ok cidr => .ok (s.addCidr cidr)
  | .domain raw =>
    if kMaxProxyBypassCustomRules < s.customRuleCount + 1 then .error (.tooManyRules, s)
    else if valid : validBypassDomain (normalizeBypassDomain raw) = true then .ok (s.addDomain (normalizeBypassDomain raw) valid)
    else .error (.invalidDomain, s)
  | .unsupported => .error (.unsupportedRule, s)

def bypassTokens (source : Text) : List Text :=
  let value := trimWhitespace source
  if value = [] then [] else (value.splitOn ',').map trimWhitespace

-- Sorted, so that duplicates are neighbours.
def sortUnique (values : List Text) : List Text := (values.insertionSort (· ≤ ·)).dedup

structure ParsedBypass extends ProxyBypassPolicy where
  customCidrs : List Cidr := []
deriving DecidableEq

theorem unbroken_fields {error : Text} {cidrs domains : List Text} (text : '\n' ∉ error) (first : ∀ name ∈ cidrs, '\n' ∉ name)
    (second : ∀ domain ∈ domains, '\n' ∉ domain) : ∀ text ∈ error :: (cidrs ++ domains), '\n' ∉ text :=
  List.forall_mem_cons.mpr ⟨text, List.forall_mem_append.mpr ⟨first, second⟩⟩

theorem mem_sortUnique {values : List Text} {value : Text} : value ∈ sortUnique values ↔ value ∈ values := by
  rw [sortUnique, List.mem_dedup, List.mem_insertionSort]

def invalidBypass (error : BypassError) (s : BypassState) : ParsedBypass where
  valid := false
  error := error.text
  privateNetworks := s.privateNetworks
  linkLocal := s.linkLocal
  localNames := s.localNames
  cgnat := s.cgnat
  customCidrNames := s.customCidrNames
  customDomains := s.customDomains
  unbroken := unbroken_fields (by cases error <;> decide) s.unbrokenCidrs s.unbrokenDomains
  silent := by simp
  customCidrs := s.customCidrs

def validBypass (s : BypassState) (cidrs : List Cidr) : ParsedBypass where
  privateNetworks := s.privateNetworks
  linkLocal := s.linkLocal
  localNames := s.localNames
  cgnat := s.cgnat
  customCidrNames := sortUnique s.customCidrNames
  customDomains := sortUnique s.customDomains
  unbroken := unbroken_fields List.not_mem_nil (fun name there => s.unbrokenCidrs name (mem_sortUnique.mp there))
    fun domain there => s.unbrokenDomains domain (mem_sortUnique.mp there)
  silent := ProxyBypassPolicy.loopback.silent
  customCidrs := cidrs

def ProxyBypassPolicy.parse (source : Text) : Except Text ParsedBypass :=
  match (bypassTokens source).foldlM readToken {} with
  | .error (error, s) => .ok (invalidBypass error s)
  | .ok s => ((sortUnique s.customCidrNames).mapM parseCidr).map (validBypass s)

end Rules

section Matching

def isLoopback (address : Address) : Bool :=
  match address.family with
  | .ipv4 => address.bytes.getD 0 0 = 127
  | .ipv6 => address.bytes.getD 15 0 = 1 && (address.bytes.take 15).all (· = 0)

def isPrivate (address : Address) : Bool :=
  let first := address.bytes.getD 0 0
  let second := address.bytes.getD 1 0
  match address.family with
  | .ipv4 => first = 10 || (first = 172 && 16 ≤ second && second ≤ 31) || (first = 192 && second = 168)
  | .ipv6 => first &&& 0xfe = 0xfc

def isLinkLocal (address : Address) : Bool :=
  let first := address.bytes.getD 0 0
  let second := address.bytes.getD 1 0
  match address.family with
  | .ipv4 => first = 169 && second = 254
  | .ipv6 => first = 0xfe && second &&& 0xc0 = 0x80

def isCgnat (address : Address) : Bool :=
  let second := address.bytes.getD 1 0
  address.family = .ipv4 && address.bytes.getD 0 0 = 100 && 64 ≤ second && second ≤ 127

def bypassHost (rawHost : Text) : Text :=
  let host := toLower (trimWhitespace rawHost)
  if 1 < host.length ∧ host.getLast? = some '.' ∧ host.dropLast.getLast? ≠ some '.' then host.dropLast else host

variable (policy : ParsedBypass)

def matchDomain (host : Text) : Option Text :=
  if !validBypassDomain host then none
  else if host = chars "localhost" ∨ matchesDomain host (chars "localhost") then some (chars "LOOPBACK")
  else if policy.localNames ∧ (matchesDomain host (chars "local") ∨ matchesDomain host (chars "home.arpa")) then some (chars "LAN")
  else if policy.customDomains.any fun domain => matchesDomain host domain then some (chars "DOMAIN")
  else none

def matchAddress (host : Text) : Option Text :=
  (parseAddress host).bind fun address =>
    if isLoopback address then some (chars "LOOPBACK")
    else if policy.privateNetworks ∧ isPrivate address then some (chars "PRIVATE")
    else if policy.linkLocal ∧ isLinkLocal address then some (chars "LAN")
    else if policy.cgnat ∧ isCgnat address then some (chars "CGNAT")
    else if policy.customCidrs.any fun cidr => cidr.contains address then some (chars "CIDR")
    else none

def ParsedBypass.matchHost (rawHost : Text) : Option Text :=
  if !policy.valid then none
  else (matchDomain policy (bypassHost rawHost)).or (matchAddress policy (bypassHost rawHost))

end Matching

end SubConverter.Handler
