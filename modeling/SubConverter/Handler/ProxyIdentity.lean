import SubConverter.Lib.Results
import SubConverter.Handler.FetchGate
import SubConverter.Handler.ProxyBypass

set_option autoImplicit false

namespace SubConverter.Handler

open Server (Cidr parseCidr)

section Endpoints

def hasUnsafePercentEncoding : Text → Bool
  | '%' :: high :: low :: rest =>
    match hexDigit high, hexDigit low with
    | some high, some low => high * 16 + low < 0x20 || high * 16 + low = 0x7f || hasUnsafePercentEncoding rest
    | _, _ => true
  | '%' :: _ => true
  | _ :: rest => hasUnsafePercentEncoding rest
  | [] => false

def validPort (port : Text) : Bool := port ≠ [] && port.all Char.isDigit && 0 < digitsValue port && digitsValue port ≤ 65535

def cutAtLast (mark : Char) (text : Text) : Option (Text × Text) :=
  (cutAt [mark] text.reverse).map fun parts => (parts.2.reverse, parts.1.reverse)

-- The port behind the host, where there is one, or the error.
def portOf (authority : Text) : Except Text (Option Text) :=
  if authority.head? = some '[' then
    match cutAt [']'] authority with
    | none => .error (chars "proxy URI has an invalid IPv6 host")
    | some (_, []) => .ok none
    | some (_, ':' :: port) => .ok (some port)
    | some _ => .error (chars "proxy URI has an invalid IPv6 host and port")
  else
    match cutAtLast ':' authority with
    | some ([], _) => .error (chars "proxy URI is missing a host")
    | some (_, port) => .ok (some port)
    | none => .ok none

def corsSchemes : List Text := [chars "http", chars "https"]

def proxySchemes : List Text := corsSchemes ++ [chars "socks4", chars "socks4a", chars "socks5", chars "socks5h"]

def validProxyEndpoint (endpoint : Text) (cors : Bool) : Except Text Unit :=
  if endpoint = [] ∨ hasControlCharacter endpoint ∨ hasUnsafePercentEncoding endpoint then
    .error (chars "proxy URI is empty or contains unsafe encoding")
  else
    match cutAt (chars "://") endpoint with
    | none | some ([], _) => .error (chars "proxy URI must include a scheme")
    | some (scheme, authorityAndPath) =>
      if toLower scheme ∉ (if cors then corsSchemes else proxySchemes) then
        .error (if cors then chars "CORS endpoint must use http or https" else chars "unsupported proxy URI scheme")
      else
        let authority := authorityAndPath.takeWhile fun c => c ∉ ['/', '?', '#']
        let authority := ((cutAtLast '@' authority).map Prod.snd).getD authority
        if authority = [] then .error (chars "proxy URI is missing a host")
        else
          match portOf authority with
          | .error error => .error error
          | .ok port =>
            if cors ∧ port = none then .ok ()
            else if port.any validPort then .ok ()
            else .error (chars "proxy URI has an invalid port")

-- An entry of a map of protocols, with its value where it has one.
def systemEntry (entry : Text) : Option (Text × Text) :=
  match cutAt ['='] entry with
  | none => none
  | some (scheme, value) =>
    let value := trimWhitespace value
    if value = [] then none else some (toLower (trimWhitespace scheme), value)

def withScheme (endpoint : Text) : Text := if (cutAt (chars "://") endpoint).isSome then endpoint else chars "http://" ++ endpoint

def normalizeSystemEndpoint (endpoint : Text) : Text :=
  if '=' ∈ endpoint then
    let entries := (split endpoint ';').filterMap systemEntry
    match entries.find? fun entry => entry.1 = chars "https" ∨ entry.1 = chars "http" with
    | some entry => withScheme entry.2
    | none =>
      match entries with
      | [] => []
      | entry :: _ => withScheme entry.2
  else if endpoint = [] then [] else withScheme endpoint

end Endpoints

section Policies

structure ProxyPolicy where
  mode : ProxyMode := .direct
  endpoint : Text := []
  valid : Bool := true
  error : Text := []
  bypass : ParsedBypass
deriving DecidableEq

def ProxyPolicy.check (policy : ProxyPolicy) (checked : Except Text Unit) (note : Text) : ProxyPolicy :=
  match checked with
  | .ok () => policy
  | .error error => { policy with valid := false, error := note ++ error }

def proxyPolicyOf (source : Text) (bypass : ParsedBypass) : ProxyPolicy :=
  let value := trimWhitespace source
  let policy : ProxyPolicy :=
    if bypass.valid then { bypass := bypass } else { bypass := bypass, valid := false, error := bypass.error }
  if value = [] ∨ toUpper value = chars "NONE" then policy
  else if toUpper value = chars "SYSTEM" then { policy with mode := .system }
  else if startsWith (toLower value) (chars "cors:") then
    ({ policy with mode := .cors, endpoint := value.drop 5 }).check (validProxyEndpoint (value.drop 5) true) []
  else ({ policy with mode := .explicit, endpoint := value }).check (validProxyEndpoint value false) []

def ProxyPolicy.parse (source bypassSource : Text) : Except Text ProxyPolicy :=
  (ProxyBypassPolicy.parse bypassSource).map (proxyPolicyOf source)

def ProxyPolicy.snapshot (policy : ProxyPolicy) (systemProxy : Text) : ProxyPolicy :=
  if policy.mode ≠ .system then policy
  else
    let endpoint := normalizeSystemEndpoint (trimWhitespace systemProxy)
    let result := { policy with endpoint := endpoint }
    if endpoint = [] then result else result.check (validProxyEndpoint endpoint false) (chars "system proxy is invalid: ")

def ProxyPolicy.resolved (policy : ProxyPolicy) : ResolvedProxyPolicy where
  mode := policy.mode
  endpoint := policy.endpoint
  valid := policy.valid
  bypass := policy.bypass.toProxyBypassPolicy

def ProxyPolicy.cacheIdentity (policy : ProxyPolicy) (systemProxy : Text) : Text := (policy.snapshot systemProxy).resolved.cacheIdentity

end Policies

section Meanings

inductive BypassMeaning where
  | nothing
  | privateNetworks
  | lan
  | cgnat
  | cidr (cidr : Cidr)
  | domain (domain : Text)
deriving DecidableEq, Repr

def BypassRule.meaning : BypassRule → BypassMeaning
  | .privateNetworks => .privateNetworks
  | .lan => .lan
  | .cgnat => .cgnat
  | .cidr raw => ((parseCidr (trimWhitespace raw)).toOption.map BypassMeaning.cidr).getD .nothing
  | .domain raw => .domain (normalizeBypassDomain raw)
  | .empty | .loopback | .unsupported => .nothing

variable {token : Text} {s next : BypassState} {meanings first second : List BypassMeaning}

theorem toLower_toUpper_text (text : Text) : toLower (toUpper text) = toLower text := by
  rw [toLower, toUpper, List.map_map]
  exact List.map_congr_left fun c _ => toLower_toUpper

theorem toUpper_toUpper_text (text : Text) : toUpper (toUpper text) = toUpper text := by
  rw [toUpper, toUpper, List.map_map]
  exact List.map_congr_left fun c _ => toUpper_toUpper

theorem meaning_toUpper (token : Text) : (bypassRule (toUpper token)).meaning = (bypassRule token).meaning := by
  have cidr : (parseCidr (trimWhitespace ((toUpper token).drop 5))).toOption =
      (parseCidr (trimWhitespace (token.drop 5))).toOption := by
    rw [toUpper, ← List.map_drop, ← toUpper, trimWhitespace_toUpper, parseCidr_toUpper]
  have domain : normalizeBypassDomain ((toUpper token).drop 7) = normalizeBypassDomain (token.drop 7) := by
    rw [toUpper, ← List.map_drop, ← toUpper, normalizeBypassDomain, normalizeBypassDomain, trimWhitespace_toUpper,
      toLower_toUpper_text]
  simp only [bypassRule, toUpper_toUpper_text, toUpper_eq_nil_iff]
  split_ifs
  next => rfl
  next => rfl
  next => rfl
  next => rfl
  next => rfl
  next => rw [BypassRule.meaning, BypassRule.meaning, cidr]
  next => rw [BypassRule.meaning, BypassRule.meaning, domain]
  next => rfl

structure BypassState.Holds (s : BypassState) (meanings : List BypassMeaning) : Prop where
  privateNetworks : s.privateNetworks = true ↔ .privateNetworks ∈ meanings ∨ .lan ∈ meanings
  linkLocal : s.linkLocal = true ↔ .lan ∈ meanings
  localNames : s.localNames = true ↔ .lan ∈ meanings
  cgnat : s.cgnat = true ↔ .cgnat ∈ meanings
  cidrs : ∀ name, name ∈ s.customCidrNames ↔ ∃ cidr, .cidr cidr ∈ meanings ∧ canonicalCidrName cidr = name
  domains : ∀ domain, domain ∈ s.customDomains ↔ .domain domain ∈ meanings

theorem holds_nothing : BypassState.Holds {} [] := by
  constructor <;> simp

theorem BypassState.Holds.read (held : s.Holds meanings) (read : readToken s token = .ok next) :
    next.Holds (meanings ++ [(bypassRule token).meaning]) := by
  obtain ⟨privateNetworks, linkLocal, localNames, cgnat, cidrs, domains⟩ := held
  unfold readToken at read
  cases rule : bypassRule token with
  | empty | unsupported => simp [rule] at read
  | loopback | privateNetworks | lan | cgnat =>
    simp only [rule] at read
    obtain rfl := Except.ok.inj read
    constructor <;> simp_all [BypassRule.meaning]
  | cidr raw =>
    simp only [rule, guard_eq_ok_iff] at read
    obtain ⟨-, read⟩ := read
    cases parsed : parseCidr (trimWhitespace raw) with
    | error error => simp [parsed] at read
    | ok cidr =>
      simp only [parsed] at read
      obtain rfl := Except.ok.inj read
      have meaning : (BypassRule.cidr raw).meaning = .cidr cidr := by simp [BypassRule.meaning, parsed, Except.toOption]
      rw [meaning]
      constructor
      case cidrs =>
        intro name
        simp only [BypassState.addCidr, List.mem_append, List.mem_singleton, cidrs, BypassMeaning.cidr.injEq]
        constructor
        · rintro (⟨other, there, same⟩ | rfl)
          · exact ⟨other, .inl there, same⟩
          · exact ⟨cidr, .inr rfl, rfl⟩
        · rintro ⟨other, there | rfl, same⟩
          · exact .inl ⟨other, there, same⟩
          · exact .inr same.symm
      case privateNetworks => simpa [BypassState.addCidr] using privateNetworks
      case linkLocal => simpa [BypassState.addCidr] using linkLocal
      case localNames => simpa [BypassState.addCidr] using localNames
      case cgnat => simpa [BypassState.addCidr] using cgnat
      case domains => simpa [BypassState.addCidr] using domains
  | domain raw =>
    simp only [rule, guard_eq_ok_iff] at read
    obtain ⟨-, read⟩ := read
    split at read
    next valid =>
      obtain rfl := Except.ok.inj read
      constructor
      case privateNetworks => simpa [BypassState.addDomain, BypassRule.meaning] using privateNetworks
      case linkLocal => simpa [BypassState.addDomain, BypassRule.meaning] using linkLocal
      case localNames => simpa [BypassState.addDomain, BypassRule.meaning] using localNames
      case cgnat => simpa [BypassState.addDomain, BypassRule.meaning] using cgnat
      case cidrs => simpa [BypassState.addDomain, BypassRule.meaning] using cidrs
      case domains => simp [BypassState.addDomain, BypassRule.meaning, domains]
    next => cases read

theorem BypassState.Holds.readAll {tokens : List Text} (held : s.Holds meanings) (read : tokens.foldlM readToken s = .ok next) :
    next.Holds (meanings ++ tokens.map fun token => (bypassRule token).meaning) := by
  induction tokens generalizing s meanings with
  | nil =>
    obtain rfl := Except.ok.inj read
    simpa using held
  | cons token rest ih =>
    rw [List.foldlM_cons, bind_eq_ok_iff] at read
    obtain ⟨middle, here, behind⟩ := read
    simpa using ih (held.read here) behind

theorem sortUnique_congr {first second : List Text} (same : ∀ value, value ∈ first ↔ value ∈ second) :
    sortUnique first = sortUnique second := by
  have sorted : ∀ values : List Text, (sortUnique values).Pairwise (· ≤ ·) := fun values =>
    (List.pairwise_insertionSort (· ≤ ·) values).sublist (List.dedup_sublist _)
  refine List.Perm.eq_of_pairwise' (sorted first) (sorted second) ?_
  rw [sortUnique, sortUnique, List.perm_ext_iff_of_nodup (List.nodup_dedup _) (List.nodup_dedup _)]
  intro value
  rw [← sortUnique, ← sortUnique, mem_sortUnique, mem_sortUnique, same]

end Meanings

section Canonical

variable {tokens others : List Text} {source other : Text} {first second : ParsedBypass}

def SameRules (tokens others : List Text) : Prop := ∀ token, token ∈ tokens.map toUpper ↔ token ∈ others.map toUpper

instance : Decidable (SameRules tokens others) :=
  decidable_of_iff ((∀ token ∈ tokens.map toUpper, token ∈ others.map toUpper) ∧ ∀ token ∈ others.map toUpper, token ∈ tokens.map toUpper)
    ⟨fun both token => ⟨both.1 token, both.2 token⟩, fun same => ⟨fun token => (same token).mp, fun token => (same token).mpr⟩⟩

theorem mem_meanings (meaning : BypassMeaning) :
    meaning ∈ (tokens.map fun token => (bypassRule token).meaning) ↔ ∃ token ∈ tokens.map toUpper, (bypassRule token).meaning = meaning := by
  simp only [List.mem_map, exists_exists_and_eq_and, meaning_toUpper]

theorem mem_meanings_congr (same : SameRules tokens others) (meaning : BypassMeaning) :
    meaning ∈ (tokens.map fun token => (bypassRule token).meaning) ↔ meaning ∈ others.map fun token => (bypassRule token).meaning := by
  simp only [mem_meanings, same _]

theorem parse_valid (parsed : ProxyBypassPolicy.parse source = .ok first) (valid : first.valid = true) :
    ∃ s cidrs, (bypassTokens source).foldlM readToken {} = .ok s ∧
      (sortUnique s.customCidrNames).mapM parseCidr = .ok cidrs ∧ first = validBypass s cidrs := by
  unfold ProxyBypassPolicy.parse at parsed
  cases read : (bypassTokens source).foldlM readToken {} with
  | error fault =>
    simp only [read] at parsed
    obtain rfl := Except.ok.inj parsed
    cases valid
  | ok s =>
    simp only [read] at parsed
    cases again : (sortUnique s.customCidrNames).mapM parseCidr with
    | error fault => simp [again, Except.map] at parsed
    | ok cidrs =>
      rw [again] at parsed
      exact ⟨s, cidrs, rfl, again, (Except.ok.inj parsed).symm⟩

theorem validBypass_congr {s next : BypassState} {meanings others : List BypassMeaning} {cidrs networks : List Cidr}
    (left : s.Holds meanings) (right : next.Holds others) (same : ∀ meaning, meaning ∈ meanings ↔ meaning ∈ others)
    (here : (sortUnique s.customCidrNames).mapM parseCidr = .ok cidrs)
    (there : (sortUnique next.customCidrNames).mapM parseCidr = .ok networks) : validBypass s cidrs = validBypass next networks := by
  have privateNetworks : s.privateNetworks = next.privateNetworks := by
    rw [Bool.eq_iff_iff, left.privateNetworks, right.privateNetworks, same, same]
  have linkLocal : s.linkLocal = next.linkLocal := by rw [Bool.eq_iff_iff, left.linkLocal, right.linkLocal, same]
  have localNames : s.localNames = next.localNames := by rw [Bool.eq_iff_iff, left.localNames, right.localNames, same]
  have cgnat : s.cgnat = next.cgnat := by rw [Bool.eq_iff_iff, left.cgnat, right.cgnat, same]
  have names : sortUnique s.customCidrNames = sortUnique next.customCidrNames := by
    apply sortUnique_congr
    intro name
    simp only [left.cidrs, right.cidrs, same]
  have domains : sortUnique s.customDomains = sortUnique next.customDomains := by
    apply sortUnique_congr
    intro domain
    rw [left.domains, right.domains, same]
  obtain rfl : cidrs = networks := by
    rw [names, there] at here
    exact (Except.ok.inj here).symm
  simp only [validBypass, privateNetworks, linkLocal, localNames, cgnat, names, domains]

theorem parse_sameRules (left : ProxyBypassPolicy.parse source = .ok first) (right : ProxyBypassPolicy.parse other = .ok second)
    (validLeft : first.valid = true) (validRight : second.valid = true)
    (same : SameRules (bypassTokens source) (bypassTokens other)) : first = second := by
  obtain ⟨s, cidrs, read, here, rfl⟩ := parse_valid left validLeft
  obtain ⟨next, networks, readOther, there, rfl⟩ := parse_valid right validRight
  exact validBypass_congr (holds_nothing.readAll read) (holds_nothing.readAll readOther) (mem_meanings_congr same) here there

theorem matchHost_congr (left : ProxyBypassPolicy.parse source = .ok first) (right : ProxyBypassPolicy.parse other = .ok second)
    (same : first.toProxyBypassPolicy = second.toProxyBypassPolicy) (host : Text) : first.matchHost host = second.matchHost host := by
  by_cases valid : first.valid = true
  · have validOther : second.valid = true := by rw [← same, valid]
    obtain ⟨s, cidrs, -, here, rfl⟩ := parse_valid left valid
    obtain ⟨next, networks, -, there, rfl⟩ := parse_valid right validOther
    have names : sortUnique s.customCidrNames = sortUnique next.customCidrNames :=
      congrArg ProxyBypassPolicy.customCidrNames same
    obtain rfl : cidrs = networks := by
      rw [names, there] at here
      exact (Except.ok.inj here).symm
    have equal : validBypass s cidrs = validBypass next cidrs := by
      rw [validBypass, validBypass, ParsedBypass.mk.injEq]
      exact ⟨same, rfl⟩
    rw [equal]
  · have refused : second.valid ≠ true := by rwa [← same]
    simp [ParsedBypass.matchHost, valid, refused]

end Canonical

section Identities

theorem identityLines_unlabelled (policy : ProxyBypassPolicy) : ∀ text ∈ policy.identityLines, ¬ chars "bypass=" <+: text := by
  simp only [ProxyBypassPolicy.identityLines, List.cons_append, List.nil_append, List.forall_mem_cons, List.forall_mem_append,
    List.forall_mem_map]
  refine ⟨?_, ?_, ?_, ?_, ?_, fun cidr there => ?_, fun domain there => ?_⟩ <;> simp [chars]

theorem ResolvedProxyPolicy.cacheIdentity_eq (policy : ResolvedProxyPolicy) :
    policy.cacheIdentity = proxyModeName policy.mode ++ '\n' :: (policy.endpoint ++ '\n' :: (if policy.valid then chars "valid" else chars "invalid")) ++
      lines ((chars "bypass=" ++ policy.bypass.validity) :: policy.bypass.identityLines) := by
  rw [cacheIdentity, ProxyBypassPolicy.cacheIdentity_eq]
  simp [newline]

theorem ResolvedProxyPolicy.cacheIdentity_injective : Function.Injective ResolvedProxyPolicy.cacheIdentity := by
  intro first second same
  have modeUnbroken : ∀ mode, '\n' ∉ proxyModeName mode := by
    intro mode
    cases mode <;> decide
  have flagUnbroken : ∀ valid : Bool, '\n' ∉ if valid then chars "valid" else chars "invalid" := by decide
  have bypassUnbroken : ∀ policy : ProxyBypassPolicy, '\n' ∉ chars "bypass=" ++ policy.validity := fun policy =>
    List.not_mem_append (by decide) policy.validity_unbroken
  rw [cacheIdentity_eq, cacheIdentity_eq] at same
  obtain ⟨heads, validity, bypassLines⟩ := labelled_line_inj (bypassUnbroken _) (bypassUnbroken _)
    first.bypass.identityLines_unbroken second.bypass.identityLines_unbroken (identityLines_unlabelled _)
    (identityLines_unlabelled _) same
  obtain ⟨modes, tails⟩ := append_mark_inj (modeUnbroken _) (modeUnbroken _) heads
  obtain ⟨endpoints, flags⟩ := mark_append_inj (flagUnbroken _) (flagUnbroken _) tails
  have bypass := ProxyBypassPolicy.identity_injective validity bypassLines
  obtain ⟨mode, endpoint, valid, policy⟩ := first
  obtain ⟨otherMode, otherEndpoint, otherValid, otherPolicy⟩ := second
  obtain rfl : valid = otherValid := by
    cases valid <;> cases otherValid <;> simp_all [chars]
  obtain rfl := proxyModeName_injective modes
  rw [ResolvedProxyPolicy.mk.injEq]
  exact ⟨rfl, endpoints, rfl, bypass⟩

end Identities

section Policies

variable {source other bypassSource otherBypass : Text} {first second : ProxyPolicy}

@[simp] theorem ProxyPolicy.check_bypass (policy : ProxyPolicy) (checked : Except Text Unit) (note : Text) :
    (policy.check checked note).bypass = policy.bypass := by
  unfold ProxyPolicy.check
  split <;> rfl

theorem proxyPolicyOf_bypass (source : Text) (bypass : ParsedBypass) : (proxyPolicyOf source bypass).bypass = bypass := by
  simp only [proxyPolicyOf, apply_ite ProxyPolicy.bypass, ProxyPolicy.check_bypass, ite_self]

theorem snapshot_bypass (policy : ProxyPolicy) (systemProxy : Text) : (policy.snapshot systemProxy).bypass = policy.bypass := by
  unfold ProxyPolicy.snapshot
  dsimp only
  split_ifs
  next => rfl
  next => rfl
  next => rw [ProxyPolicy.check_bypass]

theorem policy_parsed (parsed : ProxyPolicy.parse source bypassSource = .ok first) :
    ProxyBypassPolicy.parse bypassSource = .ok first.bypass ∧ first = proxyPolicyOf source first.bypass := by
  unfold ProxyPolicy.parse at parsed
  cases read : ProxyBypassPolicy.parse bypassSource with
  | error fault => simp [read, Except.map] at parsed
  | ok bypass =>
    rw [read] at parsed
    obtain rfl := Except.ok.inj parsed
    rw [proxyPolicyOf_bypass]
    exact ⟨rfl, rfl⟩

theorem proxy_identity_sound (left : ProxyPolicy.parse source bypassSource = .ok first)
    (right : ProxyPolicy.parse other otherBypass = .ok second) :
    (source = other → SameRules (bypassTokens bypassSource) (bypassTokens otherBypass) →
      first.bypass.valid = true → second.bypass.valid = true →
        (∀ systemProxy, first.cacheIdentity systemProxy = second.cacheIdentity systemProxy) ∧
          ∀ host, first.bypass.matchHost host = second.bypass.matchHost host) ∧
    ∀ systemProxy otherProxy, first.cacheIdentity systemProxy = second.cacheIdentity otherProxy →
      (first.snapshot systemProxy).endpoint = (second.snapshot otherProxy).endpoint ∧
        (first.snapshot systemProxy).mode = (second.snapshot otherProxy).mode ∧
        (first.snapshot systemProxy).valid = (second.snapshot otherProxy).valid ∧
        ∀ host, first.bypass.matchHost host = second.bypass.matchHost host := by
  obtain ⟨readLeft, ofLeft⟩ := policy_parsed left
  obtain ⟨readRight, ofRight⟩ := policy_parsed right
  constructor
  · rintro rfl same validLeft validRight
    have bypass : first.bypass = second.bypass := parse_sameRules readLeft readRight validLeft validRight same
    have policies : first = second := by rw [ofLeft, ofRight, bypass]
    rw [policies]
    exact ⟨fun systemProxy => rfl, fun host => rfl⟩
  · intro systemProxy otherProxy same
    have resolved : (first.snapshot systemProxy).resolved = (second.snapshot otherProxy).resolved :=
      ResolvedProxyPolicy.cacheIdentity_injective same
    rw [ProxyPolicy.resolved, ProxyPolicy.resolved, ResolvedProxyPolicy.mk.injEq, snapshot_bypass, snapshot_bypass] at resolved
    obtain ⟨mode, endpoint, valid, bypass⟩ := resolved
    exact ⟨endpoint, mode, valid, matchHost_congr readLeft readRight bypass⟩

-- A policy that sends private hosts past a SOCKS proxy.
def privatePolicy : ProxyPolicy where
  mode := .explicit
  endpoint := chars "socks5://a:1080"
  bypass := {
    privateNetworks := true
    customCidrNames := [chars "fd00::/8"]
    silent := ProxyBypassPolicy.loopback.silent
    customCidrs := [⟨⟨.ipv6, 0xfd :: List.replicate 15 0⟩, 8⟩] }

theorem proxy_identity_sound_private :
    ∃ first second, ProxyPolicy.parse (chars "socks5://a:1080") (chars "PRIVATE,cidr:FD00::/8") = .ok first ∧
      ProxyPolicy.parse (chars "socks5://a:1080") (chars "CIDR:fd00::/8, private,Private") = .ok second ∧
      (∀ systemProxy, first.cacheIdentity systemProxy = second.cacheIdentity systemProxy) ∧
      (first.snapshot []).endpoint = (second.snapshot []).endpoint ∧
      ∀ host, first.bypass.matchHost host = second.bypass.matchHost host :=
  have left : ProxyPolicy.parse (chars "socks5://a:1080") (chars "PRIVATE,cidr:FD00::/8") = .ok privatePolicy := by
    decide +kernel
  have right : ProxyPolicy.parse (chars "socks5://a:1080") (chars "CIDR:fd00::/8, private,Private") = .ok privatePolicy := by
    decide +kernel
  have sound := proxy_identity_sound left right
  have one := sound.1 rfl (by decide) rfl rfl
  have back := sound.2 [] [] (one.1 [])
  ⟨privatePolicy, privatePolicy, left, right, one.1, back.1, back.2.2.2⟩

end Policies

end SubConverter.Handler
