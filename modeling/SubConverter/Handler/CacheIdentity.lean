import SubConverter.Lib.Delimited

set_option autoImplicit false

namespace SubConverter.Handler

inductive ProxyMode where
  | direct
  | system
  | explicit
  | cors
  deriving DecidableEq, Repr

def proxyModeName : ProxyMode → Text
  | .direct => chars "Direct"
  | .system => chars "System"
  | .explicit => chars "Explicit"
  | .cors => chars "Cors"

/-- The rules that `ProxyBypassPolicy::parse` has read. It accepts only names that are addresses or host names, and
sets one of its own messages when it refuses a rule. -/
structure ProxyBypassPolicy where
  valid : Bool := true
  error : Text := []
  privateNetworks : Bool := false
  linkLocal : Bool := false
  localNames : Bool := false
  cgnat : Bool := false
  customCidrNames : List Text := []
  customDomains : List Text := []
  unbroken : ∀ text ∈ error :: (customCidrNames ++ customDomains), '\n' ∉ text := by decide
  silent : valid = true → error = [] := by first | exact fun _ => rfl | decide
  deriving DecidableEq

/-- The policy without rules: only loopback addresses pass the proxy by. -/
def ProxyBypassPolicy.loopback : ProxyBypassPolicy := {}

-- The beginning of a new line.
def newline (label : String) : Text := '\n' :: chars label

def digit (set : Bool) : Text := if set then ['1'] else ['0']

def ProxyBypassPolicy.cacheIdentity (policy : ProxyBypassPolicy) : Text :=
  (if policy.valid then chars "valid" else chars "invalid:" ++ policy.error) ++
    newline "loopback=1" ++ newline "private=" ++ digit policy.privateNetworks ++
    newline "linklocal=" ++ digit policy.linkLocal ++
    newline "localnames=" ++ digit policy.localNames ++
    newline "cgnat=" ++ digit policy.cgnat ++
    policy.customCidrNames.flatMap (fun cidr => newline "cidr=" ++ cidr) ++
    policy.customDomains.flatMap (fun domain => newline "domain=" ++ domain)

/-- The endpoint as `snapshot` leaves it. Its message `error` follows from the other fields and is in no identity. -/
structure ResolvedProxyPolicy where
  mode : ProxyMode := .direct
  endpoint : Text := []
  valid : Bool := true
  bypass : ProxyBypassPolicy := .loopback
  deriving DecidableEq

def ResolvedProxyPolicy.cacheIdentity (policy : ResolvedProxyPolicy) : Text :=
  proxyModeName policy.mode ++ ['\n'] ++ policy.endpoint ++ ['\n'] ++
    (if policy.valid then chars "valid" else chars "invalid") ++ newline "bypass=" ++ policy.bypass.cacheIdentity

inductive NoProxyDirective where
  | none
  | inheritEnvironment (inheritedNoProxy : Text)
  | forceProxy
  | initialBypass (noProxyPattern bypassRule : Text)
  deriving DecidableEq, Repr

def NoProxyDirective.text : NoProxyDirective → Text
  | .none => chars "none"
  | .inheritEnvironment inherited => chars "inherit:" ++ inherited
  | .forceProxy => chars "force"
  | .initialBypass pattern rule => chars "bypass:" ++ pattern ++ chars ":" ++ rule

/-- `bypass_host` is left out: it is the host of the URL, set for an initial bypass and empty otherwise. -/
structure ResolvedProxyRoute where
  proxy : ResolvedProxyPolicy := {}
  noProxy : NoProxyDirective := .none
  deriving DecidableEq

def ResolvedProxyRoute.cacheIdentity (route : ResolvedProxyRoute) : Text :=
  chars "routing-v3" ++ ['\n'] ++ route.proxy.cacheIdentity ++ newline "noproxy=" ++ route.noProxy.text

namespace ResolvedProxyRoute

structure Plain (route : ResolvedProxyRoute) : Prop where
  endpoint : '\n' ∉ route.proxy.endpoint
  inherited : ∀ text, route.noProxy = .inheritEnvironment text → '\n' ∉ text
  pattern : ∀ text rule, route.noProxy = .initialBypass text rule → '\n' ∉ text ∧ '\n' ∉ rule
  rule : ∀ text rule, route.noProxy = .initialBypass text rule → ':' ∉ rule

end ResolvedProxyRoute

def ProxyBypassPolicy.validity (policy : ProxyBypassPolicy) : Text :=
  if policy.valid then chars "valid" else chars "invalid:" ++ policy.error

def ProxyBypassPolicy.identityLines (policy : ProxyBypassPolicy) : List Text :=
  [chars "loopback=1", chars "private=" ++ digit policy.privateNetworks,
    chars "linklocal=" ++ digit policy.linkLocal, chars "localnames=" ++ digit policy.localNames,
    chars "cgnat=" ++ digit policy.cgnat] ++
  (policy.customCidrNames.map (chars "cidr=" ++ ·) ++ policy.customDomains.map (chars "domain=" ++ ·))

theorem ProxyBypassPolicy.cacheIdentity_eq (policy : ProxyBypassPolicy) :
    policy.cacheIdentity = policy.validity ++ lines policy.identityLines := by
  simp only [cacheIdentity, validity, identityLines, newline, lines, List.flatMap_append, List.flatMap_cons,
    List.flatMap_map, List.append_assoc, List.cons_append, List.nil_append]

theorem ProxyBypassPolicy.validity_unbroken (policy : ProxyBypassPolicy) : '\n' ∉ policy.validity := by
  have error := policy.unbroken policy.error List.mem_cons_self
  unfold ProxyBypassPolicy.validity
  split
  · decide
  · exact List.not_mem_append (by decide) error

theorem ProxyBypassPolicy.identityLines_unbroken (policy : ProxyBypassPolicy) :
    ∀ text ∈ policy.identityLines, '\n' ∉ text := by
  have flag : ∀ set, '\n' ∉ digit set := by decide
  have name : ∀ text ∈ policy.customCidrNames ++ policy.customDomains, '\n' ∉ text :=
    fun text there => policy.unbroken text (List.mem_cons_of_mem _ there)
  simp only [ProxyBypassPolicy.identityLines, List.cons_append, List.nil_append, List.forall_mem_cons,
    List.forall_mem_append, List.forall_mem_map]
  refine ⟨by decide, ?_, ?_, ?_, ?_, fun cidr there => ?_, fun domain there => ?_⟩
  · exact List.not_mem_append (by decide) (flag _)
  · exact List.not_mem_append (by decide) (flag _)
  · exact List.not_mem_append (by decide) (flag _)
  · exact List.not_mem_append (by decide) (flag _)
  · exact List.not_mem_append (by decide) (name cidr (List.mem_append_left _ there))
  · exact List.not_mem_append (by decide) (name domain (List.mem_append_right _ there))

theorem map_append_inj {first second : Text} {xs ys xs' ys' : List Text}
    (apart : ∀ x y, first ++ x ≠ second ++ y)
    (same : xs.map (first ++ ·) ++ ys.map (second ++ ·) = xs'.map (first ++ ·) ++ ys'.map (second ++ ·)) :
    xs = xs' ∧ ys = ys' := by
  have injective : ∀ label : Text, Function.Injective (label ++ ·) := fun label x y => List.append_cancel_left
  induction xs generalizing xs' with
  | nil =>
    cases xs' with
    | nil => exact ⟨rfl, List.map_injective_iff.2 (injective second) (by simpa using same)⟩
    | cons head tail =>
      cases ys with
      | nil => simp at same
      | cons y ys =>
        simp only [List.map_nil, List.nil_append, List.map_cons, List.cons_append, List.cons.injEq] at same
        exact absurd same.1.symm (apart head y)
  | cons x xs ih =>
    cases xs' with
    | nil =>
      cases ys' with
      | nil => simp at same
      | cons y ys =>
        simp only [List.map_nil, List.nil_append, List.map_cons, List.cons_append, List.cons.injEq] at same
        exact absurd same.1 (apart x y)
    | cons head tail =>
      simp only [List.map_cons, List.cons_append, List.cons.injEq] at same
      obtain ⟨rfl, rfl⟩ := ih same.2
      exact ⟨by rw [injective first same.1], rfl⟩

theorem proxyModeName_injective : Function.Injective proxyModeName := by
  intro first second same
  revert same
  cases first <;> cases second <;> decide

theorem NoProxyDirective.text_injective {first second : NoProxyDirective}
    (left : ∀ pattern rule, first = .initialBypass pattern rule → ':' ∉ rule)
    (right : ∀ pattern rule, second = .initialBypass pattern rule → ':' ∉ rule) (same : first.text = second.text) :
    first = second := by
  cases first <;> cases second <;> simp only [NoProxyDirective.text, List.append_assoc] at same
  case none.none => rfl
  case forceProxy.forceProxy => rfl
  case inheritEnvironment.inheritEnvironment => rw [List.append_cancel_left same]
  case initialBypass.initialBypass pattern rule pattern' rule' =>
    have cut := mark_append_inj (left pattern rule rfl) (right pattern' rule' rfl) (List.append_cancel_left same)
    rw [cut.1, cut.2]
  all_goals simp [chars] at same

theorem digit_injective : Function.Injective digit := by
  intro first second same
  cases first <;> cases second <;> simp_all [digit]

theorem ProxyBypassPolicy.identity_injective {first second : ProxyBypassPolicy}
    (validity : first.validity = second.validity) (same : first.identityLines = second.identityLines) :
    first = second := by
  obtain ⟨valid, error, privateNetworks, linkLocal, localNames, cgnat, cidrs, domains, unbroken, silent⟩ := first
  obtain ⟨valid', error', privateNetworks', linkLocal', localNames', cgnat', cidrs', domains', unbroken', silent'⟩ :=
    second
  simp only [identityLines, List.cons_append, List.nil_append, List.cons.injEq, true_and] at same
  obtain ⟨networks, link, names, carrier, custom⟩ := same
  obtain rfl := digit_injective (List.append_cancel_left networks)
  obtain rfl := digit_injective (List.append_cancel_left link)
  obtain rfl := digit_injective (List.append_cancel_left names)
  obtain rfl := digit_injective (List.append_cancel_left carrier)
  obtain ⟨rfl, rfl⟩ := map_append_inj (by simp [chars]) custom
  cases valid with
  | true =>
    cases valid' with
    | true =>
      obtain rfl : error = [] := silent rfl
      obtain rfl : error' = [] := silent' rfl
      rfl
    | false => simp [ProxyBypassPolicy.validity, chars] at validity
  | false =>
    cases valid' with
    | true => simp [ProxyBypassPolicy.validity, chars] at validity
    | false =>
      obtain rfl : error = error' := by simpa [ProxyBypassPolicy.validity] using validity
      rfl

namespace ResolvedProxyRoute

def identityLines (route : ResolvedProxyRoute) : List Text :=
  [proxyModeName route.proxy.mode, route.proxy.endpoint,
    if route.proxy.valid then chars "valid" else chars "invalid",
    chars "bypass=" ++ route.proxy.bypass.validity] ++
  route.proxy.bypass.identityLines ++ [chars "noproxy=" ++ route.noProxy.text]

theorem cacheIdentity_eq (route : ResolvedProxyRoute) :
    route.cacheIdentity = chars "routing-v3" ++ lines route.identityLines := by
  unfold cacheIdentity ResolvedProxyPolicy.cacheIdentity
  rw [ProxyBypassPolicy.cacheIdentity_eq]
  simp only [identityLines, newline, lines, List.flatMap_append, List.flatMap_cons, List.flatMap_nil,
    List.append_assoc, List.cons_append, List.nil_append, List.append_nil]

theorem identityLines_unbroken {route : ResolvedProxyRoute} (plain : route.Plain) :
    ∀ text ∈ route.identityLines, '\n' ∉ text := by
  have mode : '\n' ∉ proxyModeName route.proxy.mode := by cases route.proxy.mode <;> decide
  have valid : '\n' ∉ if route.proxy.valid then chars "valid" else chars "invalid" := by
    cases route.proxy.valid <;> decide
  have directive : '\n' ∉ route.noProxy.text := by
    cases found : route.noProxy with
    | none => decide
    | forceProxy => decide
    | inheritEnvironment inherited =>
      exact List.not_mem_append (by decide) (plain.inherited inherited found)
    | initialBypass pattern rule =>
      obtain ⟨unbroken, single⟩ := plain.pattern pattern rule found
      exact List.not_mem_append (List.not_mem_append (List.not_mem_append (by decide) unbroken) (by decide)) single
  simp only [identityLines, List.cons_append, List.nil_append, List.forall_mem_cons, List.forall_mem_append]
  refine ⟨mode, plain.endpoint, valid, ?_, route.proxy.bypass.identityLines_unbroken, ?_, by simp⟩
  · exact List.not_mem_append (by decide) route.proxy.bypass.validity_unbroken
  · exact List.not_mem_append (by decide) directive

theorem cacheIdentity_mode {first second : ResolvedProxyRoute} (same : first.cacheIdentity = second.cacheIdentity) :
    first.proxy.mode = second.proxy.mode := by
  have unbroken : ∀ mode, '\n' ∉ proxyModeName mode := by
    intro mode
    cases mode <;> decide
  simp only [cacheIdentity, ResolvedProxyPolicy.cacheIdentity, List.append_assoc, List.cons_append,
    List.nil_append] at same
  have names := append_mark_inj (unbroken _) (unbroken _) (List.cons.inj (List.append_cancel_left same)).2
  exact proxyModeName_injective names.1

theorem cacheIdentity_injective {first second : ResolvedProxyRoute} (left : first.Plain) (right : second.Plain)
    (same : first.cacheIdentity = second.cacheIdentity) : first = second := by
  rw [cacheIdentity_eq, cacheIdentity_eq] at same
  have sameLines := lines_injective (identityLines_unbroken left) (identityLines_unbroken right)
    (List.append_cancel_left same)
  simp only [identityLines, List.cons_append, List.nil_append, List.cons.injEq] at sameLines
  obtain ⟨mode, endpoint, valid, validity, rest⟩ := sameLines
  obtain ⟨bypass, directive⟩ := List.append_inj' rest rfl
  obtain ⟨proxy, noProxy⟩ := first
  obtain ⟨proxy', noProxy'⟩ := second
  simp only [List.cons.injEq, and_true] at directive
  obtain rfl := NoProxyDirective.text_injective left.rule right.rule (List.append_cancel_left directive)
  obtain ⟨firstMode, firstEndpoint, firstValid, firstBypass⟩ := proxy
  obtain ⟨secondMode, secondEndpoint, secondValid, secondBypass⟩ := proxy'
  obtain rfl : firstMode = secondMode := proxyModeName_injective mode
  obtain rfl : firstEndpoint = secondEndpoint := endpoint
  obtain rfl : firstValid = secondValid := by
    cases firstValid <;> cases secondValid <;> simp_all [chars]
  obtain rfl := ProxyBypassPolicy.identity_injective (List.append_cancel_left validity) bypass
  rfl

-- The texts of a route stand in its identity without their length, so two routes with a line break in them can read
-- the same.
def Alike (first second : ResolvedProxyRoute) : Prop :=
  first = second ∨ (¬first.Plain ∨ ¬second.Plain) ∧ first.cacheIdentity = second.cacheIdentity

theorem alike_iff {first second : ResolvedProxyRoute} :
    first.Alike second ↔ first.cacheIdentity = second.cacheIdentity := by
  constructor
  · rintro (rfl | ⟨-, same⟩)
    · rfl
    · exact same
  · intro same
    by_cases plain : first.Plain ∧ second.Plain
    · exact .inl (cacheIdentity_injective plain.1 plain.2 same)
    · exact .inr ⟨not_and_or.1 plain, same⟩

end ResolvedProxyRoute

inductive FetchContext where
  | trustedConfig
  | publicRequest
  deriving DecidableEq, Repr

def FetchContext.number : FetchContext → Nat
  | .trustedConfig => 0
  | .publicRequest => 1

structure FetchSettings where
  securityProfile : Text
  allowInsecureTls : Bool
  maxAllowedDownloadSize : Int
  configGeneration : Nat
  deriving DecidableEq

def isPublicFetchRestricted (settings : FetchSettings) (context : FetchContext) : Bool :=
  context = .publicRequest &&
    (settings.securityProfile = chars "public" || settings.securityProfile = chars "strict")

def toLower (text : Text) : Text := text.map Char.toLower

/-- A `string_icase_map`: sorted by name, letter case aside. -/
structure HeaderMap where
  entries : List (Text × Text) := []
  sorted : entries.Pairwise fun first second => toLower first.1 < toLower second.1 := by
    first | exact List.Pairwise.nil | decide
  deriving DecidableEq

def HeaderMap.empty : HeaderMap := {}

def HeaderMap.fields (headers : HeaderMap) : List (Text × Text) :=
  headers.entries.map fun header => (toLower header.1, header.2)

def HeaderMap.hasUserAgent (headers : HeaderMap) : Bool :=
  headers.fields.any fun header => header.1 = chars "user-agent"

def userAgent : Text := chars "clash.meta"

inductive FetchPath where
  | sync
  | async
  deriving DecidableEq, Repr

structure Fetch where
  path : FetchPath
  url : Text
  route : ResolvedProxyRoute := {}
  headers : Option HeaderMap := none
  context : FetchContext
  settings : FetchSettings
  cacheTtl : Nat := 0
  captureResponseHeaders : Bool := false

def integer (n : Int) : Text := if n < 0 then '-' :: decimal n.natAbs else decimal n.natAbs

namespace Fetch

variable (fetch : Fetch)

def effectiveHeaders : List (Text × Text) :=
  match fetch.headers with
  | none => [(chars "user-agent", userAgent)]
  | some headers => headers.fields ++ if headers.hasUserAgent then [] else [(chars "user-agent", userAgent)]

-- A direct request without headers is keyed by its URL alone.
def bare : Bool :=
  fetch.route.proxy.mode = .direct && (fetch.headers.map HeaderMap.entries).getD [] = []

/-- What `build_cache_key` hashes. -/
def cacheText : Text :=
  if fetch.bare then fetch.url
  else
    chars "url:" ++ field fetch.url ++ newline "proxy:" ++ field fetch.route.cacheIdentity ++ newline "headers:" ++
      match fetch.headers with
      | none => []
      | some _ => fetch.effectiveHeaders.flatMap fun header => '\n' :: (header.1 ++ ':' :: field header.2)

/-- `build_async_disk_cache_identity` -/
def asyncDiskIdentity : Text :=
  chars "url:" ++ field fetch.url ++ newline "route:" ++ field fetch.route.cacheIdentity ++
    newline "context:" ++ decimal fetch.context.number ++ newline "tls:" ++ digit fetch.settings.allowInsecureTls ++
    newline "max-download:" ++ integer fetch.settings.maxAllowedDownloadSize ++
    ((fetch.headers.map HeaderMap.fields).getD []).flatMap
      (fun header => newline "header:" ++ field header.1 ++ ':' :: field header.2) ++
    if (fetch.headers.map HeaderMap.hasUserAgent).getD false then []
    else newline "default-user-agent:" ++ userAgent

/-- `build_async_cache_identity` -/
def asyncIdentity : Text :=
  fetch.asyncDiskIdentity ++ newline "generation:" ++ decimal fetch.settings.configGeneration ++
    newline "ttl:" ++ decimal fetch.cacheTtl ++ newline "headers-captured:" ++ digit fetch.captureResponseHeaders

section Keys

variable (md5 : Text → Text)

def keyText : Text :=
  match fetch.path with
  | .sync => fetch.cacheText
  | .async => chars "owned-async-cache:" ++ fetch.asyncDiskIdentity ++ chars ":legacy:" ++ md5 fetch.cacheText

def diskKey : Text := md5 (fetch.keyText md5)

def registryKey : Text × FetchPath :=
  match fetch.path with
  | .sync => (fetch.diskKey md5, .sync)
  | .async => (fetch.asyncIdentity, .async)

end Keys

end Fetch

end SubConverter.Handler
