import SubConverter.Handler.Addresses

set_option autoImplicit false

namespace SubConverter.Handler

/-- A `string_multimap`, in the order of its iteration. -/
structure ArgumentMap where
  entries : List (Text × Text) := []
  sorted : entries.Pairwise fun first second => ¬second.1 < first.1 := by decide
  deriving DecidableEq

def getUrlArg (args : ArgumentMap) (request : Text) : Text :=
  ((args.entries.find? fun arg => arg.1 = request).map Prod.snd).getD []

def HeaderMap.find (headers : HeaderMap) (name : Text) : Option (Text × Text) :=
  headers.entries.find? fun header => toLower header.1 = toLower name

structure Request where
  method : Text := chars "GET"
  url : Text := chars "/sub"
  argument : ArgumentMap := {}
  headers : HeaderMap := .empty
  deriving DecidableEq

section Key

structure SubRequestKeyBuilder where
  processed : Text := []
  size : Nat := 0

def kMaxIdentitySize : Nat := 2 * 1024 * 1024

def SubRequestKeyBuilder.append (identity : SubRequestKeyBuilder) (name value : Text) : Option SubRequestKeyBuilder :=
  if kMaxIdentitySize < identity.size + (name.length + value.length + 32) then none
  else some ⟨identity.processed ++ record name value, identity.size + name.length + (decimal value.length).length + value.length + 3⟩

def isHeaderBlank (c : Char) : Bool := c ∈ [' ', '\t', '\r', '\n']

def trimHeaderName (value : Text) : Text := strip isHeaderBlank value

def headerValue (request : Request) (name : Text) : Text := ((request.headers.find name).map Prod.snd).getD []

def appendHeader (identity : SubRequestKeyBuilder) (request : Request) (name : Text) : Option SubRequestKeyBuilder := do
  let identity ← identity.append (chars "header_name") (toLower name)
  identity.append (chars "header_value") (headerValue request name)

def appendArgument (identity : SubRequestKeyBuilder) (arg : Text × Text) : Option SubRequestKeyBuilder := do
  let identity ← identity.append (chars "arg_name") arg.1
  identity.append (chars "arg_value") arg.2

def appendSelected (request : Request) (identity : SubRequestKeyBuilder) (part : Text) : Option SubRequestKeyBuilder :=
  let name := trimHeaderName part
  if name = [] then some identity else appendHeader identity request name

/-- What `buildSubRequestKey` is called with. -/
structure KeyedRequest where
  request : Request
  ageRecipientFingerprint : Text := []
  configGeneration : Nat := 0
  managedConfigPrefix : Text := []

variable (version : Text) (md5 : Text → Text) (keyed : KeyedRequest)

def subRequestIdentity : Option Text := do
  let request := keyed.request
  let identity ← ({} : SubRequestKeyBuilder).append (chars "version") version
  let identity ← identity.append (chars "config_generation") (decimal keyed.configGeneration)
  let identity ← identity.append (chars "managed_config_prefix") keyed.managedConfigPrefix
  let identity ← identity.append (chars "method") request.method
  let identity ← identity.append (chars "path") request.url
  let identity ← identity.append (chars "age_recipient_fingerprint") keyed.ageRecipientFingerprint
  let identity ← request.argument.entries.foldlM appendArgument identity
  let identity ← appendHeader identity request (chars "User-Agent")
  let selected := getUrlArg request.argument (chars "provider_headers")
  let identity ← (selected.splitOn ',').foldlM (appendSelected request) identity
  return identity.processed

def buildSubRequestKey : Text := ((subRequestIdentity version keyed).map md5).getD []

end Key

section Headers

def kProviderUserAgentMaxLen : Nat := 512

def trimProviderUserAgentCandidate (ua : Text) : Text := strip (fun c => c ∈ [' ', '\t']) ua

def hasInvalidProviderUserAgentChar (ua : Text) : Bool := ua.any fun c => c.toNat < 0x20 || c.toNat == 0x7f

def containsAnyUserAgentToken (lower : Text) (tokens : List Text) : Bool :=
  tokens.any fun token => (cutAt token lower).isSome

def browserTokens : List Text :=
  ["mozilla/", "applewebkit/", "chrome/", "chromium/", "crios/", "safari/", "firefox/", "fxios/", "edg/", "edga/",
    "edgios/", "edge/", "opr/", "opera/", "brave/", "vivaldi/", "yabrowser/", "samsungbrowser/", "ucbrowser/", "maxthon/",
    "qqbrowser/", "mqqbrowser/", "sogou/", "360se", "360ee", "whale/", "micromessenger/", "msie ", "trident/"].map chars

def inspectionToolTokens : List Text :=
  ["curl/", "wget/", "python-requests/", "python-urllib/", "postmanruntime/", "insomnia/", "go-http-client/", "java/",
    "apache-httpclient/", "httpie/", "powershell/", "libwww-perl/", "axios/", "node-fetch/", "undici"].map chars

def isExcludedProviderUserAgent (ua : Text) : Bool :=
  containsAnyUserAgentToken (toLower ua) browserTokens || containsAnyUserAgentToken (toLower ua) inspectionToolTokens

def providerUserAgentFromRequest (request : Request) : Text :=
  match request.headers.find (chars "User-Agent") with
  | none => []
  | some ua =>
    let value := trimProviderUserAgentCandidate ua.2
    if value = [] || decide (kProviderUserAgentMaxLen < value.length) || hasInvalidProviderUserAgentChar value ||
      isExcludedProviderUserAgent value then []
    else value

def isValidProviderHeaderName (name : Text) : Bool :=
  name ≠ [] && name.length ≤ 128 && name.all fun c => c.isAlphanum || c ∈ chars "!#$%&'*+-.^_`|~"

def reservedHeaders : List Text :=
  ["host", "connection", "keep-alive", "proxy-authenticate", "proxy-authorization", "te", "trailer", "transfer-encoding",
    "upgrade", "content-length", "cookie", "forwarded", "origin", "referer", "user-agent", "x-age-public-key", "if-match",
    "if-none-match", "if-modified-since", "if-unmodified-since", "if-range", "range"].map chars

def reservedPrefixes : List Text :=
  ["cf-", "sec-", "x-forwarded-", "x-real-ip", "x-client-ip", "x-original-", "x-envoy-", "true-client-ip", "fastly-",
    "fly-"].map chars

def isReservedProviderHeader (name : Text) : Bool :=
  decide (toLower name ∈ reservedHeaders) || reservedPrefixes.any fun start => startsWith (toLower name) start

def hasInvalidProviderHeaderValue (value : Text) : Bool :=
  value = [] || decide (8192 < value.length) || value.any fun c => c ∈ ['\r', '\n', '\x00', '\x7f']

/-- `std::map::emplace`, with the entries in the order of the selection. -/
def emplace (headers : List (Text × Text)) (header : Text × Text) : List (Text × Text) :=
  if headers.any fun other => other.1 = header.1 then headers else headers ++ [header]

def selectProviderHeaders (request : Request) : List Text → List Text → List (Text × Text) → Except Text (List (Text × Text))
  | [], _, headers => .ok headers
  | part :: rest, seen, headers =>
    let name := trim part
    if !isValidProviderHeaderName name then .error (chars "provider_headers contains an invalid header name")
    else if isReservedProviderHeader name then .error (chars "provider_headers contains a reserved header name: " ++ name)
    else if toLower name ∈ seen then .error (chars "provider_headers contains a duplicate header name: " ++ name)
    else
      match request.headers.find name with
      | none => .error (chars "provider_headers selected a header that is missing: " ++ name)
      | some header =>
        if hasInvalidProviderHeaderValue header.2 then
          .error (chars "provider_headers selected an invalid header value: " ++ name)
        else selectProviderHeaders request rest (toLower name :: seen) (emplace headers header)

def providerHeadersFromRequest (request : Request) (selected : Text) : Except Text (List (Text × Text)) :=
  if selected = [] then .ok []
  else if 1024 < selected.length then .error (chars "provider_headers is too long")
  else
    let names := split selected ','
    if names = [] ∨ 16 < names.length then .error (chars "provider_headers must select between 1 and 16 headers")
    else selectProviderHeaders request names [] []

end Headers

section Identity

variable {version : Text} {keyed : KeyedRequest} {identity next : SubRequestKeyBuilder} {request : Request}

def argumentRecords (arg : Text × Text) : List (Text × Text) := [(chars "arg_name", arg.1), (chars "arg_value", arg.2)]

def headerRecords (request : Request) (name : Text) : List (Text × Text) :=
  [(chars "header_name", toLower name), (chars "header_value", headerValue request name)]

def selectedRecords (request : Request) (part : Text) : List (Text × Text) :=
  if trimHeaderName part = [] then [] else headerRecords request (trimHeaderName part)

def selectedParts (request : Request) : List Text := (getUrlArg request.argument (chars "provider_headers")).splitOn ','

def headRecords (version : Text) (keyed : KeyedRequest) : List (Text × Text) :=
  [(chars "version", version), (chars "config_generation", decimal keyed.configGeneration),
    (chars "managed_config_prefix", keyed.managedConfigPrefix), (chars "method", keyed.request.method),
    (chars "path", keyed.request.url), (chars "age_recipient_fingerprint", keyed.ageRecipientFingerprint)]

def tailRecords (request : Request) : List (Text × Text) :=
  headerRecords request (chars "User-Agent") ++ (selectedParts request).flatMap (selectedRecords request)

def identityRecords (version : Text) (keyed : KeyedRequest) : List (Text × Text) :=
  headRecords version keyed ++ (keyed.request.argument.entries.flatMap argumentRecords ++ tailRecords keyed.request)

theorem append_processed {name value : Text} (appended : identity.append name value = some next) :
    next.processed = identity.processed ++ records [(name, value)] := by
  unfold SubRequestKeyBuilder.append at appended
  split at appended
  · cases appended
  · simp [← Option.some.inj appended]

theorem appendHeader_processed {name : Text} (appended : appendHeader identity request name = some next) :
    next.processed = identity.processed ++ records (headerRecords request name) := by
  simp only [appendHeader, Option.bind_eq_bind, Option.bind_eq_some_iff] at appended
  obtain ⟨middle, first, second⟩ := appended
  rw [append_processed second, append_processed first]
  simp [headerRecords]

theorem appendArgument_processed {arg : Text × Text} (appended : appendArgument identity arg = some next) :
    next.processed = identity.processed ++ records (argumentRecords arg) := by
  simp only [appendArgument, Option.bind_eq_bind, Option.bind_eq_some_iff] at appended
  obtain ⟨middle, first, second⟩ := appended
  rw [append_processed second, append_processed first]
  simp [argumentRecords]

theorem appendSelected_processed {part : Text} (appended : appendSelected request identity part = some next) :
    next.processed = identity.processed ++ records (selectedRecords request part) := by
  unfold appendSelected at appended
  unfold selectedRecords
  by_cases empty : trimHeaderName part = []
  · simp only [empty, if_true, Option.some.injEq] at appended
    simp [empty, appended]
  · simp only [empty, if_false] at appended ⊢
    exact appendHeader_processed appended

theorem foldlM_processed {α : Type} {step : SubRequestKeyBuilder → α → Option SubRequestKeyBuilder}
    {entries : α → List (Text × Text)}
    (each : ∀ identity x next, step identity x = some next → next.processed = identity.processed ++ records (entries x))
    {xs : List α} (folded : xs.foldlM step identity = some next) :
    next.processed = identity.processed ++ records (xs.flatMap entries) := by
  induction xs generalizing identity with
  | nil =>
    obtain rfl := Option.some.inj folded
    simp
  | cons x rest ih =>
    simp only [List.foldlM_cons, Option.bind_eq_bind, Option.bind_eq_some_iff] at folded
    obtain ⟨middle, first, others⟩ := folded
    rw [ih others, each _ _ _ first]
    simp

theorem subRequestIdentity_eq {text : Text} (hashed : subRequestIdentity version keyed = some text) :
    text = records (identityRecords version keyed) := by
  simp only [subRequestIdentity, Option.bind_eq_bind, Option.bind_eq_some_iff, Option.pure_def, Option.some.injEq] at hashed
  obtain ⟨_, first, _, second, _, third, _, fourth, _, fifth, _, sixth, _, args, _, agent, _, selected, rfl⟩ := hashed
  have selects : ∀ identity part next, appendSelected keyed.request identity part = some next →
      next.processed = identity.processed ++ records (selectedRecords keyed.request part) := fun _ _ _ =>
    appendSelected_processed
  have argues : ∀ identity arg next, appendArgument identity arg = some next →
      next.processed = identity.processed ++ records (argumentRecords arg) := fun _ _ _ => appendArgument_processed
  rw [foldlM_processed selects selected, appendHeader_processed agent, foldlM_processed argues args, append_processed sixth, append_processed fifth,
    append_processed fourth, append_processed third, append_processed second, append_processed first]
  simp [identityRecords, headRecords, tailRecords, selectedParts]

theorem identityRecords_labels (version : Text) (keyed : KeyedRequest) :
    ∀ entry ∈ identityRecords version keyed, ':' ∉ entry.1 := by
  have header : ∀ name, ∀ entry ∈ headerRecords keyed.request name, ':' ∉ entry.1 := by
    intro name
    simp only [headerRecords, List.forall_mem_cons, List.not_mem_nil, false_imp_iff, implies_true, and_true]
    decide
  have arg : ∀ arg, ∀ entry ∈ argumentRecords arg, ':' ∉ entry.1 := by
    intro arg
    simp only [argumentRecords, List.forall_mem_cons, List.not_mem_nil, false_imp_iff, implies_true, and_true]
    decide
  have head : ∀ entry ∈ headRecords version keyed, ':' ∉ entry.1 := by
    simp only [headRecords, List.forall_mem_cons, List.not_mem_nil, false_imp_iff, implies_true, and_true]
    decide
  intro entry there
  simp only [identityRecords, tailRecords, List.mem_append, List.mem_flatMap] at there
  rcases there with there | ⟨x, -, there⟩ | there | ⟨part, -, there⟩
  · exact head entry there
  · exact arg x entry there
  · exact header _ entry there
  · unfold selectedRecords at there
    split at there
    · cases there
    · exact header _ entry there

theorem argumentRecords_append_inj {first second : List (Text × Text)} {x y : Text × Text} {rest rest' : List (Text × Text)}
    (left : x.1 = chars "header_name") (right : y.1 = chars "header_name")
    (same : first.flatMap argumentRecords ++ x :: rest = second.flatMap argumentRecords ++ y :: rest') :
    first = second ∧ x :: rest = y :: rest' := by
  have apart : chars "arg_name" ≠ chars "header_name" := by decide
  induction first generalizing second with
  | nil =>
    cases second with
    | nil => exact ⟨rfl, same⟩
    | cons other more =>
      simp only [List.flatMap_nil, List.nil_append, List.flatMap_cons, argumentRecords, List.cons_append, List.cons.injEq] at same
      rw [same.1] at left
      exact absurd left apart
  | cons arg more ih =>
    cases second with
    | nil =>
      simp only [List.flatMap_nil, List.nil_append, List.flatMap_cons, argumentRecords, List.cons_append, List.cons.injEq] at same
      rw [← same.1] at right
      exact absurd right apart
    | cons other others =>
      simp only [List.flatMap_cons, argumentRecords, List.cons_append, List.nil_append, List.cons.injEq, Prod.mk.injEq,
        true_and] at same
      obtain ⟨names, values, tails⟩ := same
      obtain ⟨rfl, same⟩ := ih tails
      exact ⟨by rw [Prod.ext names values], same⟩

theorem find_name {headers : HeaderMap} {name : Text} {header : Text × Text} (found : headers.find name = some header) :
    toLower header.1 = toLower name := by
  simpa using List.find?_some found

end Identity

section Selection

variable {a b : Request} {part : Text} {parts : List Text}

theorem isHeaderBlank_token {name : Text} (valid : isValidProviderHeaderName name = true) :
    name ≠ [] ∧ ∀ c ∈ name, isHeaderBlank c = false := by
  simp only [isValidProviderHeaderName, Bool.and_eq_true, decide_eq_true_eq, List.all_eq_true] at valid
  refine ⟨valid.1.1, fun c there => ?_⟩
  have blanks : [' ', '\t', '\r', '\n'].all
      (fun blank => !(blank.isAlphanum || blank ∈ chars "!#$%&'*+-.^_`|~")) = true := by
    decide
  by_contra blank
  have token := valid.2 c there
  have listed : c ∈ [' ', '\t', '\r', '\n'] := of_decide_eq_true ((Bool.not_eq_false _).mp blank)
  have outside := List.all_eq_true.mp blanks c listed
  rw [token] at outside
  cases outside

theorem trimHeaderName_eq (valid : isValidProviderHeaderName (trim part) = true) : trimHeaderName part = trim part := by
  obtain ⟨present, clean⟩ := isHeaderBlank_token valid
  unfold trim trimOf at present clean ⊢
  split at present
  · rename_i blank
    rw [List.all_eq_true] at blank
    rw [if_pos (List.all_eq_true.mpr blank)] at clean
    obtain ⟨c, there⟩ := List.exists_mem_of_ne_nil part present
    have space := clean c there
    rw [of_decide_eq_true (blank c there)] at space
    exact absurd space (by decide)
  · rename_i mixed
    rw [if_neg mixed] at clean ⊢
    exact strip_wide (fun c space => by rw [of_decide_eq_true space]; decide) clean present

theorem flatMap_values {values : Text → Text} {other : Text → Text} {names : List Text}
    (same : names.flatMap (fun name => [(chars "header_name", toLower name), (chars "header_value", values name)]) =
      names.flatMap fun name => [(chars "header_name", toLower name), (chars "header_value", other name)]) :
    ∀ name ∈ names, values name = other name := by
  induction names with
  | nil => simp
  | cons name rest ih =>
    simp only [List.flatMap_cons, List.cons_append, List.nil_append, List.cons.injEq, Prod.mk.injEq, true_and] at same
    exact List.forall_mem_cons.mpr ⟨same.1, ih same.2⟩

theorem tailRecords_inj (args : a.argument = b.argument) (same : tailRecords a = tailRecords b) :
    headerValue a (chars "User-Agent") = headerValue b (chars "User-Agent") ∧
      ∀ part ∈ selectedParts a, trimHeaderName part ≠ [] →
        headerValue a (trimHeaderName part) = headerValue b (trimHeaderName part) := by
  have parts : selectedParts b = selectedParts a := by rw [selectedParts, selectedParts, args]
  simp only [tailRecords, headerRecords, parts, List.cons_append, List.nil_append, List.cons.injEq, Prod.mk.injEq,
    true_and] at same
  refine ⟨same.1, fun part there present => ?_⟩
  have named : ∀ request, (selectedParts a).flatMap (selectedRecords request) =
      (((selectedParts a).map trimHeaderName).filter (· ≠ [])).flatMap (headerRecords request) := by
    intro request
    induction selectedParts a with
    | nil => rfl
    | cons part rest ih =>
      by_cases empty : trimHeaderName part = []
      · simpa [selectedRecords, empty] using ih
      · simpa [selectedRecords, empty] using ih
  rw [named, named] at same
  exact flatMap_values same.2 _ (by simpa using ⟨⟨part, there, rfl⟩, present⟩)

def lowerNames (headers : List (Text × Text)) : List (Text × Text) := headers.map fun header => (toLower header.1, header.2)

def accepted (selected : Except Text (List (Text × Text))) : Option (List (Text × Text)) := selected.toOption.map lowerNames

theorem emplace_fresh {headers : List (Text × Text)} {header : Text × Text} {seen : List Text}
    (known : ∀ other ∈ headers, toLower other.1 ∈ seen) (fresh : toLower header.1 ∉ seen) :
    emplace headers header = headers ++ [header] := by
  rw [emplace, if_neg]
  intro present
  obtain ⟨other, there, same⟩ := List.any_eq_true.mp present
  exact fresh (of_decide_eq_true same ▸ known other there)

theorem lowerNames_append {headers : List (Text × Text)} {header : Text × Text} {name : Text}
    (same : toLower header.1 = toLower name) : lowerNames (headers ++ [header]) = lowerNames headers ++ [(toLower name, header.2)] := by
  simp [lowerNames, same]

theorem selectProviderHeaders_agree {seen : List Text} {first second : List (Text × Text)}
    (values : ∀ part ∈ parts, isValidProviderHeaderName (trim part) = true → headerValue a (trim part) = headerValue b (trim part))
    (same : lowerNames first = lowerNames second)
    (left : ∀ header ∈ first, toLower header.1 ∈ seen) (right : ∀ header ∈ second, toLower header.1 ∈ seen) :
    accepted (selectProviderHeaders a parts seen first) = accepted (selectProviderHeaders b parts seen second) := by
  induction parts generalizing seen first second with
  | nil => simpa [selectProviderHeaders, accepted, Except.toOption] using same
  | cons part rest ih =>
    simp only [List.forall_mem_cons] at values
    rw [selectProviderHeaders, selectProviderHeaders]
    by_cases valid : isValidProviderHeaderName (trim part) = true
    swap
    · simp only [Bool.not_eq_true] at valid
      simp [valid, accepted, Except.toOption]
    by_cases reserved : isReservedProviderHeader (trim part) = true
    · simp [valid, reserved, accepted, Except.toOption]
    by_cases known : toLower (trim part) ∈ seen
    · simp [valid, reserved, known, accepted, Except.toOption]
    simp only [valid, reserved, known, Bool.not_true, Bool.false_eq_true, if_false]
    have value := values.1 valid
    -- A header that is missing has the value of an empty one, which is refused too.
    have empty : hasInvalidProviderHeaderValue [] = true := by decide
    unfold headerValue at value
    cases foundA : a.headers.find (trim part) with
    | none =>
      cases foundB : b.headers.find (trim part) with
      | none => rfl
      | some headerB =>
        rw [foundA, foundB] at value
        simp only [Option.map_none, Option.getD_none, Option.map_some, Option.getD_some] at value
        simp [← value, empty, accepted, Except.toOption]
    | some headerA =>
      cases foundB : b.headers.find (trim part) with
      | none =>
        rw [foundA, foundB] at value
        simp only [Option.map_none, Option.getD_none, Option.map_some, Option.getD_some] at value
        simp [value, empty, accepted, Except.toOption]
      | some headerB =>
        rw [foundA, foundB] at value
        simp only [Option.map_some, Option.getD_some] at value
        have nameA := find_name foundA
        have nameB := find_name foundB
        simp only [value]
        by_cases invalid : hasInvalidProviderHeaderValue headerB.2 = true
        · simp [invalid, accepted, Except.toOption]
        · rw [if_neg invalid, if_neg invalid, emplace_fresh left (nameA ▸ known), emplace_fresh right (nameB ▸ known)]
          have grown : ∀ {headers : List (Text × Text)} {header : Text × Text}, (∀ other ∈ headers, toLower other.1 ∈ seen) →
              toLower header.1 = toLower (trim part) →
              ∀ other ∈ headers ++ [header], toLower other.1 ∈ toLower (trim part) :: seen := by
            intro headers header known same other there
            rcases List.mem_append.mp there with there | there
            · exact List.mem_cons_of_mem _ (known other there)
            · rw [List.mem_singleton.mp there, same]
              exact List.mem_cons_self
          refine ih values.2 ?_ (grown left nameA) (grown right nameB)
          rw [lowerNames_append nameA, lowerNames_append nameB, same, value]

end Selection

section Soundness

variable {version : Text} {md5 : Text → Text} {a b : KeyedRequest}

def acceptedHeaders (request : Request) : Except Text (List (Text × Text)) :=
  providerHeadersFromRequest request (getUrlArg request.argument (chars "provider_headers"))

structure SameRequest (a b : KeyedRequest) : Prop where
  method : a.request.method = b.request.method
  url : a.request.url = b.request.url
  argument : a.request.argument = b.request.argument
  userAgent : headerValue a.request (chars "User-Agent") = headerValue b.request (chars "User-Agent")
  providerUserAgent : providerUserAgentFromRequest a.request = providerUserAgentFromRequest b.request
  headers : accepted (acceptedHeaders a.request) = accepted (acceptedHeaders b.request)
  fingerprint : a.ageRecipientFingerprint = b.ageRecipientFingerprint
  generation : a.configGeneration = b.configGeneration
  managed : a.managedConfigPrefix = b.managedConfigPrefix

theorem providerUserAgent_eq (request : Request) :
    providerUserAgentFromRequest request =
      let value := trimProviderUserAgentCandidate (headerValue request (chars "User-Agent"))
      if value = [] || decide (kProviderUserAgentMaxLen < value.length) || hasInvalidProviderUserAgentChar value ||
        isExcludedProviderUserAgent value then []
      else value := by
  unfold providerUserAgentFromRequest headerValue
  cases request.headers.find (chars "User-Agent") with
  | none => rfl
  | some ua => rfl

theorem acceptedHeaders_agree {a b : Request} (args : a.argument = b.argument)
    (values : ∀ part ∈ selectedParts a, trimHeaderName part ≠ [] →
      headerValue a (trimHeaderName part) = headerValue b (trimHeaderName part)) :
    accepted (acceptedHeaders a) = accepted (acceptedHeaders b) := by
  unfold acceptedHeaders providerHeadersFromRequest
  rw [← args]
  split
  · rfl
  · split
    · rfl
    · simp only
      split
      · rfl
      · refine selectProviderHeaders_agree (fun part there valid => ?_) rfl (by simp) (by simp)
        have trimmed := trimHeaderName_eq valid
        rw [← trimmed]
        exact values part (mem_splitOn_of_mem_split there) (trimmed ▸ (isHeaderBlank_token valid).1)

theorem identityRecords_inj (same : identityRecords version a = identityRecords version b) : SameRequest a b := by
  simp only [identityRecords, headRecords, List.cons_append, List.nil_append, List.cons.injEq, Prod.mk.injEq, true_and] at same
  obtain ⟨generation, managed, method, url, fingerprint, rest⟩ := same
  obtain ⟨entries, tails⟩ := argumentRecords_append_inj rfl rfl rest
  have args : a.request.argument = b.request.argument := by
    cases left : a.request.argument
    cases right : b.request.argument
    simp only [left, right] at entries
    simp only [entries]
  obtain ⟨agent, values⟩ := tailRecords_inj args tails
  exact {
    method := method
    url := url
    argument := args
    userAgent := agent
    providerUserAgent := by rw [providerUserAgent_eq, providerUserAgent_eq, agent]
    headers := acceptedHeaders_agree args values
    fingerprint := fingerprint
    generation := decimal_injective generation
    managed := managed }

theorem sub_request_key_sound
    (injective : ∀ first ∈ subRequestIdentity version a, ∀ second ∈ subRequestIdentity version b, md5 first = md5 second → first = second)
    (same : buildSubRequestKey version md5 a = buildSubRequestKey version md5 b)
    (keyed : buildSubRequestKey version md5 a ≠ []) : SameRequest a b := by
  unfold buildSubRequestKey at same keyed
  cases left : subRequestIdentity version a with
  | none => simp [left] at keyed
  | some first =>
    cases right : subRequestIdentity version b with
    | none =>
      rw [left, right] at same
      rw [left] at keyed
      exact absurd same keyed
    | some second =>
      rw [left, right] at same
      have texts := injective first left second right same
      rw [subRequestIdentity_eq left, subRequestIdentity_eq right] at texts
      exact identityRecords_inj (records_injective (identityRecords_labels version a) (identityRecords_labels version b) texts)

theorem foldlM_each {α : Type} {step : SubRequestKeyBuilder → α → Option SubRequestKeyBuilder}
    {identity next : SubRequestKeyBuilder} {xs : List α} (folded : xs.foldlM step identity = some next) :
    ∀ x ∈ xs, ∃ before after, step before x = some after := by
  induction xs generalizing identity with
  | nil => simp
  | cons x rest ih =>
    simp only [List.foldlM_cons, Option.bind_eq_bind, Option.bind_eq_some_iff] at folded
    obtain ⟨middle, first, others⟩ := folded
    exact List.forall_mem_cons.mpr ⟨⟨identity, middle, first⟩, ih others⟩

theorem subRequestIdentity_oversized {version : Text} {keyed : KeyedRequest} {arg : Text × Text}
    (there : arg ∈ keyed.request.argument.entries) (long : kMaxIdentitySize < arg.2.length) :
    subRequestIdentity version keyed = none := by
  by_contra hashed
  obtain ⟨text, hashed⟩ := Option.ne_none_iff_exists'.mp hashed
  simp only [subRequestIdentity, Option.bind_eq_bind, Option.bind_eq_some_iff, Option.pure_def, Option.some.injEq] at hashed
  obtain ⟨_, -, _, -, _, -, _, -, _, -, _, -, _, args, -⟩ := hashed
  obtain ⟨before, after, appended⟩ := foldlM_each args arg there
  simp only [appendArgument, Option.bind_eq_bind, Option.bind_eq_some_iff] at appended
  obtain ⟨middle, -, last⟩ := appended
  unfold SubRequestKeyBuilder.append at last
  split at last
  · cases last
  · omega

def tokenRequest (name : Text) : KeyedRequest where
  request := {
    argument := { entries := [(chars "provider_headers", chars "X-Token"), (chars "target", chars "clash")] }
    headers := { entries := [(name, chars "v")], sorted := List.pairwise_singleton _ _ } }
  configGeneration := 1

-- The digest of the one text that both requests have.
def digestOfToken (_ : Text) : Text := chars "90153f40c9871105167dba633879ad30"

theorem sub_request_key_sound_token : SameRequest (tokenRequest (chars "X-Token")) (tokenRequest (chars "x-token")) := by
  have sameKey : buildSubRequestKey (chars "dev") digestOfToken (tokenRequest (chars "X-Token")) =
      buildSubRequestKey (chars "dev") digestOfToken (tokenRequest (chars "x-token")) := by decide
  refine sub_request_key_sound ?_ sameKey (by decide)
  have same : subRequestIdentity (chars "dev") (tokenRequest (chars "X-Token")) =
      subRequestIdentity (chars "dev") (tokenRequest (chars "x-token")) := by decide +kernel
  rw [same]
  intro first there second there' _
  exact Option.some.inj (Option.mem_def.mp there ▸ Option.mem_def.mp there')

def longRequest (letter : Char) : KeyedRequest where
  request := { argument := { entries := [(chars "url", List.replicate (kMaxIdentitySize + 1) letter)], sorted := List.pairwise_singleton _ _ } }

theorem sub_request_key_blind :
    (buildSubRequestKey (chars "dev") digestOfToken (tokenRequest (chars "X-Token")) =
        buildSubRequestKey (chars "dev") digestOfToken (tokenRequest (chars "x-token")) ∧
      (acceptedHeaders (tokenRequest (chars "X-Token")).request).toOption ≠
        (acceptedHeaders (tokenRequest (chars "x-token")).request).toOption) ∧
    buildSubRequestKey (chars "dev") digestOfToken (longRequest 'a') =
        buildSubRequestKey (chars "dev") digestOfToken (longRequest 'b') ∧
      (longRequest 'a').request.argument.entries ≠ (longRequest 'b').request.argument.entries := by
  have long : ∀ letter, buildSubRequestKey (chars "dev") digestOfToken (longRequest letter) = [] := by
    intro letter
    have oversized : subRequestIdentity (chars "dev") (longRequest letter) = none :=
      subRequestIdentity_oversized List.mem_cons_self (by simp)
    rw [buildSubRequestKey, oversized]
    rfl
  refine ⟨⟨by decide, by decide⟩, by rw [long, long], ?_⟩
  simp [longRequest, List.replicate_inj]

end Soundness

end SubConverter.Handler
