import SubConverter.Handler.CacheIdentity

set_option autoImplicit false

namespace SubConverter.Handler

def headerLine (header : Text × Text) : Text := '\n' :: (header.1 ++ ':' :: field header.2)

theorem headerLines_injective {first second : List (Text × Text)} (left : ∀ header ∈ first, ':' ∉ header.1)
    (right : ∀ header ∈ second, ':' ∉ header.1) (same : first.flatMap headerLine = second.flatMap headerLine) :
    first = second := by
  induction first generalizing second with
  | nil =>
    cases second with
    | nil => rfl
    | cons header rest => simp [headerLine] at same
  | cons header rest ih =>
    cases second with
    | nil => simp [headerLine] at same
    | cons other more =>
      simp only [List.flatMap_cons, headerLine, List.cons_append, List.append_assoc, List.cons.injEq, true_and] at same
      obtain ⟨names, tails⟩ :=
        append_mark_inj (left header List.mem_cons_self) (right other List.mem_cons_self) same
      obtain ⟨values, tails⟩ := field_append_inj tails
      have rests := ih (fun header there => left header (List.mem_cons_of_mem _ there))
        (fun header there => right header (List.mem_cons_of_mem _ there)) tails
      rw [Prod.ext names values, rests]

-- A header's name stands before the first colon of its line, its value behind its length.
def HeadersAlike (first second : List (Text × Text)) : Prop :=
  first = second ∨
    (∃ header ∈ first ++ second, ':' ∈ header.1) ∧ first.flatMap headerLine = second.flatMap headerLine

theorem headersAlike_iff {first second : List (Text × Text)} :
    HeadersAlike first second ↔ first.flatMap headerLine = second.flatMap headerLine := by
  constructor
  · rintro (rfl | ⟨-, same⟩)
    · rfl
    · exact same
  · intro same
    by_cases marked : ∃ header ∈ first ++ second, ':' ∈ header.1
    · exact .inr ⟨marked, same⟩
    · have plain : ∀ header ∈ first ++ second, ':' ∉ header.1 := by simpa using marked
      exact .inl (headerLines_injective (fun header there => plain header (List.mem_append_left _ there))
        (fun header there => plain header (List.mem_append_right _ there)) same)

namespace Fetch

def restricted (fetch : Fetch) : Bool := isPublicFetchRestricted fetch.settings fetch.context

def fields (fetch : Fetch) : List (Text × Text) := (fetch.headers.map HeaderMap.fields).getD []

variable (a b : Fetch)

structure SameRights : Prop where
  url : a.url = b.url
  route : a.route = b.route
  headers : a.effectiveHeaders = b.effectiveHeaders
  restricted : a.restricted = b.restricted
  tls : a.settings.allowInsecureTls = b.settings.allowInsecureTls

def Shares (md5 : Text → Text) : Prop := a.diskKey md5 = b.diskKey md5 ∨ a.registryKey md5 = b.registryKey md5

-- A bare request is hashed without any label, so its URL can spell what another request is hashed by.
structure Imitates (md5 : Text → Text) : Prop where
  path : a.path = .sync
  bare : a.bare = true
  other : b.path = .async ∨ b.bare = false
  spelled : a.url = b.keyText md5

inductive Confusable (md5 : Text → Text) : Prop where
  | bare (left : a.path = .sync) (right : b.path = .sync) (leftBare : a.bare = true) (rightBare : b.bare = true)
      (url : a.url = b.url)
      (differ : a.route ≠ b.route ∨ a.restricted ≠ b.restricted ∨
        a.settings.allowInsecureTls ≠ b.settings.allowInsecureTls)
  | keyed (left : a.path = .sync) (right : b.path = .sync) (leftKeyed : a.bare = false) (rightKeyed : b.bare = false)
      (url : a.url = b.url) (route : a.route.Alike b.route) (given : a.headers.isSome = b.headers.isSome)
      (headers : HeadersAlike a.effectiveHeaders b.effectiveHeaders)
      (differ : a.route ≠ b.route ∨ a.effectiveHeaders ≠ b.effectiveHeaders ∨ a.restricted ≠ b.restricted ∨
        a.settings.allowInsecureTls ≠ b.settings.allowInsecureTls)
  | owned (left : a.path = .async) (right : b.path = .async) (url : a.url = b.url) (route : a.route.Alike b.route)
      (context : a.context = b.context) (tls : a.settings.allowInsecureTls = b.settings.allowInsecureTls)
      (limit : a.settings.maxAllowedDownloadSize = b.settings.maxAllowedDownloadSize) (fields : a.fields = b.fields)
      (joined : a.headers.isSome = b.headers.isSome ∨ a.bare = true ∨
        a.settings.configGeneration = b.settings.configGeneration ∧ a.cacheTtl = b.cacheTtl ∧
          a.captureResponseHeaders = b.captureResponseHeaders)
      (differ : a.route ≠ b.route ∨ a.restricted ≠ b.restricted)
  | imitates (spelled : Imitates a b md5)
  | imitated (spelled : Imitates b a md5)

end Fetch

namespace Fetch

variable {a b : Fetch}

def keyedText (fetch : Fetch) : Text :=
  chars "url:" ++ field fetch.url ++ newline "proxy:" ++ field fetch.route.cacheIdentity ++ newline "headers:" ++
    match fetch.headers with
    | none => []
    | some _ => fetch.effectiveHeaders.flatMap headerLine

theorem cacheText_bare (bare : a.bare = true) : a.cacheText = a.url := by
  simp [cacheText, bare]

theorem cacheText_keyed (keyed : a.bare = false) : a.cacheText = a.keyedText := by
  unfold cacheText keyedText
  rw [keyed]
  rfl

theorem effectiveHeaders_ne_nil (fetch : Fetch) : fetch.effectiveHeaders ≠ [] := by
  unfold effectiveHeaders
  cases fetch.headers with
  | none => simp
  | some headers =>
    cases found : headers.hasUserAgent with
    | false => simp [found]
    | true =>
      intro empty
      simp [HeaderMap.hasUserAgent, (List.append_eq_nil_iff.1 empty).1] at found

theorem headerLines_ne_nil (fetch : Fetch) : fetch.effectiveHeaders.flatMap headerLine ≠ [] := by
  cases found : fetch.effectiveHeaders with
  | nil => exact absurd found (effectiveHeaders_ne_nil fetch)
  | cons header rest => simp [headerLine]

theorem effectiveHeaders_none (fetch : Fetch) (missing : fetch.headers = none) :
    fetch.effectiveHeaders = [(chars "user-agent", userAgent)] := by
  simp [effectiveHeaders, missing]

theorem keyedText_given (same : a.keyedText = b.keyedText) : a.url = b.url ∧
    a.route.cacheIdentity = b.route.cacheIdentity ∧ a.headers.isSome = b.headers.isSome ∧
      (a.headers.isSome = true → a.effectiveHeaders.flatMap headerLine = b.effectiveHeaders.flatMap headerLine) := by
  simp only [keyedText, List.append_assoc] at same
  obtain ⟨urls, rest⟩ := field_append_inj (List.append_cancel_left same)
  obtain ⟨routes, rest⟩ := field_append_inj (List.append_cancel_left rest)
  have headers := List.append_cancel_left rest
  refine ⟨urls, routes, ?_⟩
  cases given : a.headers with
  | none =>
    cases given' : b.headers with
    | none => exact ⟨rfl, nofun⟩
    | some map =>
      simp only [given, given'] at headers
      exact absurd headers.symm (headerLines_ne_nil b)
  | some map =>
    cases given' : b.headers with
    | none =>
      simp only [given, given'] at headers
      exact absurd headers (headerLines_ne_nil a)
    | some map' =>
      simp only [given, given'] at headers
      exact ⟨rfl, fun _ => headers⟩

theorem keyedText_parts (same : a.keyedText = b.keyedText) : a.url = b.url ∧ a.route.Alike b.route ∧
    a.headers.isSome = b.headers.isSome ∧ HeadersAlike a.effectiveHeaders b.effectiveHeaders := by
  obtain ⟨urls, routes, given, headers⟩ := keyedText_given same
  refine ⟨urls, ResolvedProxyRoute.alike_iff.2 routes, given, ?_⟩
  cases found : a.headers with
  | none =>
    have found' : b.headers = none := by simpa [found] using given.symm
    rw [effectiveHeaders_none a found, effectiveHeaders_none b found']
    exact .inl rfl
  | some map => exact headersAlike_iff.2 (headers (by simp [found]))

theorem keyedText_congr (url : a.url = b.url) (route : a.route.Alike b.route)
    (given : a.headers.isSome = b.headers.isSome) (headers : HeadersAlike a.effectiveHeaders b.effectiveHeaders) :
    a.keyedText = b.keyedText := by
  have routes := ResolvedProxyRoute.alike_iff.1 route
  have lines := headersAlike_iff.1 headers
  unfold keyedText
  rw [url, routes, lines]
  cases first : a.headers <;> cases second : b.headers <;> simp_all

end Fetch

def ownedLine (header : Text × Text) : Text := newline "header:" ++ field header.1 ++ ':' :: field header.2

theorem ownedLines_append_inj {first second : List (Text × Text)} {x y : Text}
    (left : ¬newline "header:" <+: x) (right : ¬newline "header:" <+: y)
    (same : first.flatMap ownedLine ++ x = second.flatMap ownedLine ++ y) : first = second ∧ x = y := by
  induction first generalizing second with
  | nil =>
    cases second with
    | nil => exact ⟨rfl, by simpa using same⟩
    | cons header rest =>
      refine absurd ⟨field header.1 ++ ':' :: field header.2 ++ (rest.flatMap ownedLine ++ y), ?_⟩ left
      rw [List.flatMap_nil, List.nil_append] at same
      rw [same, List.flatMap_cons, ownedLine]
      simp only [List.append_assoc]
  | cons header rest ih =>
    cases second with
    | nil =>
      refine absurd ⟨field header.1 ++ ':' :: field header.2 ++ (rest.flatMap ownedLine ++ x), ?_⟩ right
      rw [List.flatMap_nil, List.nil_append] at same
      rw [← same, List.flatMap_cons, ownedLine]
      simp only [List.append_assoc]
    | cons other more =>
      simp only [List.flatMap_cons, ownedLine, List.append_assoc, List.cons_append] at same
      obtain ⟨names, tails⟩ := field_append_inj (List.append_cancel_left same)
      obtain ⟨values, tails⟩ := field_append_inj (List.cons.inj tails).2
      obtain ⟨rests, ends⟩ := ih tails
      exact ⟨by rw [Prod.ext names values, rests], ends⟩

theorem not_mem_integer {n : Int} {mark : Char} (other : mark.isDigit = false) (sign : mark ≠ '-') :
    mark ∉ integer n := by
  unfold integer
  split
  · simp [not_mem_decimal other, sign]
  · exact not_mem_decimal other

theorem integer_injective : Function.Injective integer := by
  intro first second same
  have digits : ∀ n m : Nat, '-' :: decimal n ≠ decimal m := by
    intro n m mixed
    exact not_mem_decimal (by decide) (mixed ▸ List.mem_cons_self)
  unfold integer at same
  split at same <;> split at same
  · have values := decimal_injective (List.cons.inj same).2
    omega
  · exact absurd same (digits _ _)
  · exact absurd same.symm (digits _ _)
  · have values := decimal_injective same
    omega

theorem append_newline_inj {label : String} {first second x y : Text} (left : '\n' ∉ first) (right : '\n' ∉ second)
    (same : first ++ (newline label ++ x) = second ++ (newline label ++ y)) : first = second ∧ x = y := by
  obtain ⟨heads, tails⟩ := append_mark_inj left right same
  exact ⟨heads, List.append_cancel_left tails⟩

namespace Fetch

variable {a b : Fetch}

def agentLine (fetch : Fetch) : Text :=
  if (fetch.headers.map HeaderMap.hasUserAgent).getD false then []
  else newline "default-user-agent:" ++ userAgent

theorem asyncDiskIdentity_eq (fetch : Fetch) : fetch.asyncDiskIdentity =
    chars "url:" ++ (field fetch.url ++ (newline "route:" ++ (field fetch.route.cacheIdentity ++
      (newline "context:" ++ (decimal fetch.context.number ++ (newline "tls:" ++
        (digit fetch.settings.allowInsecureTls ++ (newline "max-download:" ++
          (integer fetch.settings.maxAllowedDownloadSize ++
            (fetch.fields.flatMap ownedLine ++ fetch.agentLine)))))))))) := by
  unfold asyncDiskIdentity
  simp only [List.append_assoc]
  rfl

theorem ownedLines_begin (fetch : Fetch) (x : Text) :
    ∃ rest, fetch.fields.flatMap ownedLine ++ (fetch.agentLine ++ x) = '\n' :: rest := by
  cases found : fetch.fields with
  | cons header rest => exact ⟨_, rfl⟩
  | nil =>
    have missing : (fetch.headers.map HeaderMap.hasUserAgent).getD false = false := by
      unfold fields at found
      cases given : fetch.headers with
      | none => rfl
      | some headers =>
        simp only [given, Option.map_some, Option.getD_some] at found
        simp [HeaderMap.hasUserAgent, found]
    refine ⟨chars "default-user-agent:" ++ userAgent ++ x, ?_⟩
    simp [agentLine, missing, newline]

theorem agentLine_append (fetch : Fetch) {x : Text} (tail : ¬newline "header:" <+: x) :
    ¬newline "header:" <+: fetch.agentLine ++ x := by
  unfold agentLine
  split
  · exact tail
  · simp [newline, chars]

theorem asyncDiskIdentity_append_inj {x y : Text} (leftTail : ¬newline "header:" <+: x)
    (rightTail : ¬newline "header:" <+: y)
    (same : a.asyncDiskIdentity ++ x = b.asyncDiskIdentity ++ y) :
    a.url = b.url ∧ a.route.Alike b.route ∧ a.context = b.context ∧
      a.settings.allowInsecureTls = b.settings.allowInsecureTls ∧
      a.settings.maxAllowedDownloadSize = b.settings.maxAllowedDownloadSize ∧ a.fields = b.fields := by
  rw [asyncDiskIdentity_eq, asyncDiskIdentity_eq] at same
  simp only [List.append_assoc] at same
  obtain ⟨urls, rest⟩ := field_append_inj (List.append_cancel_left same)
  obtain ⟨routes, rest⟩ := field_append_inj (List.append_cancel_left rest)
  have flag : ∀ set, '\n' ∉ digit set := by decide
  obtain ⟨contexts, rest⟩ := append_newline_inj (not_mem_decimal (by decide)) (not_mem_decimal (by decide))
    (List.append_cancel_left rest)
  obtain ⟨checks, rest⟩ := append_newline_inj (flag _) (flag _) rest
  obtain ⟨first, leftRest⟩ := ownedLines_begin a x
  obtain ⟨second, rightRest⟩ := ownedLines_begin b y
  obtain ⟨limits, rest'⟩ : integer a.settings.maxAllowedDownloadSize = integer b.settings.maxAllowedDownloadSize ∧
      first = second := by
    rw [leftRest, rightRest] at rest
    exact append_mark_inj (not_mem_integer (by decide) (by decide)) (not_mem_integer (by decide) (by decide)) rest
  have ends : a.fields.flatMap ownedLine ++ (a.agentLine ++ x) = b.fields.flatMap ownedLine ++ (b.agentLine ++ y) := by
    rw [leftRest, rightRest, rest']
  refine ⟨urls, ResolvedProxyRoute.alike_iff.2 routes, ?_, digit_injective checks, integer_injective limits,
    (ownedLines_append_inj (a.agentLine_append leftTail) (b.agentLine_append rightTail) ends).1⟩
  have numbers := decimal_injective contexts
  revert numbers
  cases a.context <;> cases b.context <;> simp [FetchContext.number]

theorem hasUserAgent_eq (fetch : Fetch) : (fetch.headers.map HeaderMap.hasUserAgent).getD false =
    fetch.fields.any fun header => header.1 = chars "user-agent" := by
  cases given : fetch.headers <;> simp [fields, given, HeaderMap.hasUserAgent]

theorem bare_eq (fetch : Fetch) : fetch.bare = (fetch.route.proxy.mode = .direct && fetch.fields.isEmpty : Bool) := by
  cases given : fetch.headers with
  | none => simp [bare, fields, given]
  | some headers => cases found : headers.entries <;> simp [bare, fields, given, HeaderMap.fields, found]

theorem bare_congr (route : a.route.Alike b.route) (fields : a.fields = b.fields) : a.bare = b.bare := by
  have modes := ResolvedProxyRoute.cacheIdentity_mode (ResolvedProxyRoute.alike_iff.1 route)
  rw [bare_eq, bare_eq, modes, fields]

theorem asyncDiskIdentity_congr (url : a.url = b.url) (route : a.route.Alike b.route) (context : a.context = b.context)
    (tls : a.settings.allowInsecureTls = b.settings.allowInsecureTls)
    (limit : a.settings.maxAllowedDownloadSize = b.settings.maxAllowedDownloadSize) (fields : a.fields = b.fields) :
    a.asyncDiskIdentity = b.asyncDiskIdentity := by
  have agents : a.agentLine = b.agentLine := by
    unfold agentLine
    rw [hasUserAgent_eq, hasUserAgent_eq, fields]
  have routes := ResolvedProxyRoute.alike_iff.1 route
  rw [asyncDiskIdentity_eq, asyncDiskIdentity_eq, url, routes, context, tls, limit, fields, agents]

theorem fields_effective (fields : a.fields = b.fields) : a.effectiveHeaders = b.effectiveHeaders := by
  have all : ∀ fetch : Fetch, fetch.effectiveHeaders = fetch.fields ++
      if (fetch.headers.map HeaderMap.hasUserAgent).getD false then [] else [(chars "user-agent", userAgent)] := by
    intro fetch
    cases given : fetch.headers <;> simp [effectiveHeaders, Fetch.fields, given]
  rw [all, all, hasUserAgent_eq, hasUserAgent_eq, fields]

theorem cacheText_congr (url : a.url = b.url) (route : a.route.Alike b.route) (fields : a.fields = b.fields)
    (given : a.headers.isSome = b.headers.isSome ∨ a.bare = true) : a.cacheText = b.cacheText := by
  have bares := bare_congr route fields
  cases bare : a.bare with
  | true => rw [cacheText_bare bare, cacheText_bare (bares ▸ bare), url]
  | false =>
    have given := given.resolve_right (by simp [bare])
    rw [cacheText_keyed bare, cacheText_keyed (bares ▸ bare)]
    exact keyedText_congr url route given (.inl (fields_effective fields))

theorem Imitates.shares {md5 : Text → Text} (spelled : Imitates a b md5) : Shares a b md5 := by
  left
  simp only [diskKey]
  rw [← spelled.spelled]
  simp only [keyText, spelled.path, cacheText_bare spelled.bare]

theorem Confusable.shares {md5 : Text → Text} (confusable : Confusable a b md5) : Shares a b md5 := by
  cases confusable with
  | bare left right leftBare rightBare url _ =>
    left
    simp only [diskKey, keyText, left, right, cacheText_bare leftBare, cacheText_bare rightBare, url]
  | keyed left right leftKeyed rightKeyed url route given headers _ =>
    left
    have texts := keyedText_congr url route given headers
    simp only [diskKey, keyText, left, right, cacheText_keyed leftKeyed, cacheText_keyed rightKeyed, texts]
  | owned left right url route context tls limit fields joined _ =>
    have disks := asyncDiskIdentity_congr url route context tls limit fields
    rcases joined with given | bare | ⟨generation, ttl, captured⟩
    · left
      simp only [diskKey, keyText, left, right, disks, cacheText_congr url route fields (.inl given)]
    · left
      simp only [diskKey, keyText, left, right, disks, cacheText_congr url route fields (.inr bare)]
    · right
      simp only [registryKey, left, right, asyncIdentity, disks, generation, ttl, captured]
  | imitates spelled => exact spelled.shares
  | imitated spelled => exact spelled.shares.imp Eq.symm Eq.symm

theorem Imitates.url_ne {md5 : Text → Text} (spelled : Imitates a b md5) : a.url ≠ b.url := by
  intro same
  have longer : b.url.length < (b.keyText md5).length := by
    cases path : b.path with
    | sync =>
      have keyed : b.bare = false := spelled.other.resolve_left (by simp [path])
      simp only [keyText, path, cacheText_keyed keyed, keyedText, field, List.length_append, List.length_cons]
      omega
    | async =>
      simp only [keyText, path, asyncDiskIdentity_eq, field, List.length_append, List.length_cons]
      omega
  rw [← spelled.spelled, same] at longer
  exact lt_irrefl _ longer

theorem Confusable.different {md5 : Text → Text} (confusable : Confusable a b md5) : ¬SameRights a b := by
  intro same
  cases confusable with
  | bare _ _ _ _ _ differ =>
    rcases differ with route | restricted | tls
    · exact route same.route
    · exact restricted same.restricted
    · exact tls same.tls
  | keyed _ _ _ _ _ _ _ _ differ =>
    rcases differ with route | headers | restricted | tls
    · exact route same.route
    · exact headers same.headers
    · exact restricted same.restricted
    · exact tls same.tls
  | owned _ _ _ _ _ _ _ _ _ differ => exact differ.elim (· same.route) (· same.restricted)
  | imitates spelled => exact spelled.url_ne same.url
  | imitated spelled => exact spelled.url_ne same.url.symm

section Separation

variable {md5 : Text → Text}

theorem keyText_apart (left : a.path = .sync) (right : b.path = .async) (same : a.keyText md5 = b.keyText md5) :
    Imitates a b md5 := by
  cases bare : a.bare with
  | true =>
    refine ⟨left, bare, .inl right, ?_⟩
    rw [← same]
    simp only [keyText, left, cacheText_bare bare]
  | false =>
    -- One text begins with `url:`, the other with `owned-async-cache:`.
    simp only [keyText, left, right, List.append_assoc, cacheText_keyed bare] at same
    simp [keyedText, chars] at same

theorem sync_separates (first : a.path = .sync) (second : b.path = .sync) (texts : a.cacheText = b.cacheText)
    (apart : ¬Confusable a b md5) : SameRights a b := by
  cases leftBare : a.bare with
  | true =>
    cases rightBare : b.bare with
    | false =>
      have spelled : a.url = b.keyText md5 := by
        simpa only [keyText, second, cacheText_bare leftBare] using texts
      exact absurd (.imitates ⟨first, leftBare, .inr rightBare, spelled⟩) apart
    | true =>
      rw [cacheText_bare leftBare, cacheText_bare rightBare] at texts
      have fields : a.fields = b.fields := by
        rw [bare_eq] at leftBare rightBare
        simp_all
      refine ⟨texts, ?_, fields_effective fields, ?_, ?_⟩
      · exact by_contra fun differ => apart (.bare first second leftBare rightBare texts (.inl differ))
      · exact by_contra fun differ => apart (.bare first second leftBare rightBare texts (.inr (.inl differ)))
      · exact by_contra fun differ => apart (.bare first second leftBare rightBare texts (.inr (.inr differ)))
  | false =>
    cases rightBare : b.bare with
    | true =>
      have spelled : b.url = a.keyText md5 := by
        simpa only [keyText, first, cacheText_bare rightBare] using texts.symm
      exact absurd (.imitated ⟨second, rightBare, .inr leftBare, spelled⟩) apart
    | false =>
      rw [cacheText_keyed leftBare, cacheText_keyed rightBare] at texts
      obtain ⟨url, route, given, headers⟩ := keyedText_parts texts
      have differ := fun differ => apart (.keyed first second leftBare rightBare url route given headers differ)
      refine ⟨url, ?_, ?_, ?_, ?_⟩
      · exact by_contra fun routes => differ (.inl routes)
      · exact by_contra fun lists => differ (.inr (.inl lists))
      · exact by_contra fun restricted => differ (.inr (.inr (.inl restricted)))
      · exact by_contra fun tls => differ (.inr (.inr (.inr tls)))

theorem asyncIdentity_parts (same : a.asyncIdentity = b.asyncIdentity) :
    (a.url = b.url ∧ a.route.Alike b.route ∧ a.context = b.context ∧
      a.settings.allowInsecureTls = b.settings.allowInsecureTls ∧
      a.settings.maxAllowedDownloadSize = b.settings.maxAllowedDownloadSize ∧ a.fields = b.fields) ∧
    a.settings.configGeneration = b.settings.configGeneration ∧ a.cacheTtl = b.cacheTtl ∧
      a.captureResponseHeaders = b.captureResponseHeaders := by
  simp only [asyncIdentity, List.append_assoc] at same
  have parts := asyncDiskIdentity_append_inj (by simp [newline, chars]) (by simp [newline, chars]) same
  obtain ⟨url, route, context, tls, limit, fields⟩ := parts
  rw [asyncDiskIdentity_congr url route context tls limit fields] at same
  obtain ⟨generation, rest⟩ := append_newline_inj (not_mem_decimal (by decide)) (not_mem_decimal (by decide))
    (List.append_cancel_left (List.append_cancel_left same))
  obtain ⟨ttl, captured⟩ := append_newline_inj (not_mem_decimal (by decide)) (not_mem_decimal (by decide)) rest
  exact ⟨⟨url, route, context, tls, limit, fields⟩, decimal_injective generation, decimal_injective ttl,
    digit_injective captured⟩

theorem legacy_given (texts : a.cacheText = b.cacheText) (bares : a.bare = b.bare) :
    a.headers.isSome = b.headers.isSome ∨ a.bare = true := by
  cases bare : a.bare with
  | true => exact .inr rfl
  | false =>
    rw [cacheText_keyed bare, cacheText_keyed (bares ▸ bare)] at texts
    exact .inl (keyedText_given texts).2.2.1

theorem async_separates (first : a.path = .async) (second : b.path = .async)
    (shares : a.keyText md5 = b.keyText md5 ∨ a.asyncIdentity = b.asyncIdentity)
    (injective : md5 a.cacheText = md5 b.cacheText → a.cacheText = b.cacheText) (apart : ¬Confusable a b md5) :
    SameRights a b := by
  rcases shares with same | same
  · simp only [keyText, first, second, List.append_assoc] at same
    have disks := List.append_cancel_left same
    obtain ⟨url, route, context, tls, limit, fields⟩ := asyncDiskIdentity_append_inj
      (by simp [newline, chars]) (by simp [newline, chars]) disks
    rw [asyncDiskIdentity_congr url route context tls limit fields] at disks
    have texts := injective (List.append_cancel_left (List.append_cancel_left disks))
    have given := legacy_given texts (bare_congr route fields)
    have differ := fun differ =>
      apart (.owned first second url route context tls limit fields (given.imp_right .inl) differ)
    refine ⟨url, ?_, fields_effective fields, ?_, tls⟩
    · exact by_contra fun routes => differ (.inl routes)
    · exact by_contra fun restricted => differ (.inr restricted)
  · obtain ⟨⟨url, route, context, tls, limit, fields⟩, extras⟩ := asyncIdentity_parts same
    have differ := fun differ =>
      apart (.owned first second url route context tls limit fields (.inr (.inr extras)) differ)
    refine ⟨url, ?_, fields_effective fields, ?_, tls⟩
    · exact by_contra fun routes => differ (.inl routes)
    · exact by_contra fun restricted => differ (.inr restricted)

theorem cache_boundary_iff
    (injective : ∀ first ∈ [a.keyText md5, b.keyText md5, a.cacheText, b.cacheText],
      ∀ second ∈ [a.keyText md5, b.keyText md5, a.cacheText, b.cacheText], md5 first = md5 second → first = second) :
    (Shares a b md5 → SameRights a b) ↔ ¬Confusable a b md5 := by
  have keys : a.diskKey md5 = b.diskKey md5 → a.keyText md5 = b.keyText md5 :=
    injective _ (by simp) _ (by simp)
  have legacy : md5 a.cacheText = md5 b.cacheText → a.cacheText = b.cacheText := injective _ (by simp) _ (by simp)
  constructor
  · intro separates confusable
    exact confusable.different (separates confusable.shares)
  · intro apart shares
    cases first : a.path with
    | sync =>
      cases second : b.path with
      | sync =>
        have same : a.diskKey md5 = b.diskKey md5 := by
          rcases shares with same | same
          · exact same
          · simpa [registryKey, first, second] using same
        have texts := keys same
        simp only [keyText, first, second] at texts
        exact sync_separates first second texts apart
      | async =>
        rcases shares with same | same
        · exact absurd (.imitates (keyText_apart first second (keys same))) apart
        · simp [registryKey, first, second] at same
    | async =>
      cases second : b.path with
      | sync =>
        rcases shares with same | same
        · exact absurd (.imitated (keyText_apart second first (keys same).symm)) apart
        · simp [registryKey, first, second] at same
      | async =>
        refine async_separates first second (shares.imp keys fun same => ?_) legacy apart
        simpa [registryKey, first, second] using same

end Separation

-- One URL, fetched directly and without headers, for a trusted configuration and for an outside request.
def trustedFetch : Fetch where
  path := .sync
  url := chars "https://example.com/rules"
  context := .trustedConfig
  settings := ⟨chars "public", false, 1048576, 1⟩

def publicFetch : Fetch := { trustedFetch with context := .publicRequest }

def otherFetch : Fetch := { publicFetch with url := chars "https://example.com/other" }

-- The digests of the two URLs.
def digests (text : Text) : Text :=
  if text = chars "https://example.com/rules" then chars "fbb66ea835577d882707275259abfdb1"
  else chars "42dda26811d23bc612750f7f680d2306"

theorem cache_boundary_iff_other_url :
    ((Shares trustedFetch otherFetch digests → SameRights trustedFetch otherFetch) ↔
      ¬Confusable trustedFetch otherFetch digests) ∧ ¬Confusable trustedFetch otherFetch digests := by
  refine ⟨cache_boundary_iff (by decide), ?_⟩
  have urls : trustedFetch.url ≠ otherFetch.url := by decide
  have bares : trustedFetch.bare = true ∧ otherFetch.bare = true := by decide
  intro confusable
  cases confusable with
  | bare _ _ _ _ url _ => exact urls url
  | keyed _ _ _ _ url _ _ _ _ => exact urls url
  | owned _ _ url _ _ _ _ _ _ _ => exact urls url
  | imitates spelled => exact spelled.other.elim nofun (by simp [bares])
  | imitated spelled => exact spelled.other.elim nofun (by simp [bares])

theorem cache_boundary_crossed :
    Shares trustedFetch publicFetch digests ∧ ¬SameRights trustedFetch publicFetch := by
  refine ⟨.inl (by decide), fun same => ?_⟩
  exact absurd same.restricted (by decide)

end Fetch

end SubConverter.Handler
