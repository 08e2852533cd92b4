import SubConverter.Lib.Results
import SubConverter.Handler.ProviderNames

set_option autoImplicit false

namespace SubConverter.Handler

section Links

def extractHierarchicalScheme (link : Text) : Text := ((cutAt (chars "://") link).map fun cut => toLower cut.1).getD []

def isHttpScheme (scheme : Text) : Bool := scheme = chars "http" || scheme = chars "https"

def isHttpSchemeLink (link : Text) : Bool := isHttpScheme (extractHierarchicalScheme link)

def hasUnsafeQuanXRemoteUrlChar (url : Text) : Bool := url.any fun c => c.toNat ≤ 0x20 || c.toNat = 0x7f

-- `legacy` is the test for a legacy HTTP proxy URI.
variable (legacy : Text → Bool)

def isHttpSubscriptionLink (link : Text) (explicitlyRemote : Bool) : Bool :=
  let lower := toLower link
  if !isHttpSchemeLink link then false
  else if startsWith lower (chars "https://t.me/socks") || startsWith lower (chars "https://t.me/http") then false
  else if legacy link then false
  else if explicitlyRemote then true
  else
    let rest := ((cutAt (chars "://") link).map Prod.snd).getD []
    '?' ∈ rest || 1 < (rest.dropWhile (· ≠ '/')).length

end Links

section Errors

def urlItem (index : Nat) : Text := decimal (index + 1)

def itemError (before between behind : String) (index : Nat) : Text :=
  chars before ++ urlItem index ++ chars between ++ urlItem index ++ chars behind

def providerLinkPrefixError (index : Nat) : LinkError → Text
  | .duplicateInterval =>
    itemError "Invalid request: interval: is repeated for URL item #" ".\n无效请求：第 " " 个 url 项重复设置了 interval: 前缀。" index
  | .invalidInterval =>
    itemError "Invalid request: interval: for URL item #" " must be a decimal integer from 0 to 2147483647.\n无效请求：第 "
      " 个 url 项的 interval: 必须是 0 到 2147483647 之间的十进制整数。" index
  | .duplicateProxyDirect =>
    itemError "Invalid request: proxy_direct: is repeated for URL item #" ".\n无效请求：第 "
      " 个 url 项重复设置了 proxy_direct: 前缀。" index
  | _ =>
    itemError "Invalid request: proxy_direct: for URL item #" " must be true, false, 1, or 0.\n无效请求：第 "
      " 个 url 项的 proxy_direct: 必须是 true、false、1 或 0。" index

def providerIntervalScopeError : Nat → Text :=
  itemError "Invalid request: interval: for URL item #"
    " is only valid for subscription links that generate Clash/ClashR proxy-providers, Quantumult X server_remote resources, Surge policy-path resources, or Stash proxy-providers.\n无效请求：第 "
    " 个 url 项的 interval: 仅适用于会生成 Clash/ClashR proxy-provider、Quantumult X server_remote、Surge policy-path 或 Stash proxy-provider 资源的订阅链接。"

def providerDirectScopeError : Nat → Text :=
  itemError "Invalid request: proxy_direct: for URL item #"
    " is only valid for subscription links that generate Clash/ClashR proxy-providers.\n无效请求：第 "
    " 个 url 项的 proxy_direct: 仅适用于会生成 Clash/ClashR proxy-provider 的订阅链接。"

def loonRemoteProxySourceError : Nat → Text :=
  itemError "Invalid request: Loon Remote Proxy subscription item #"
    " contains an unescaped space or control character.\n无效请求：第 "
    " 个 Loon Remote Proxy 订阅项包含未转义空格或控制字符。"

def stashProxyProviderSourceError : Nat → Text :=
  itemError "Invalid request: Stash proxy-provider subscription item #"
    " contains an unescaped space or control character.\n无效请求：第 "
    " 个 Stash proxy-provider 订阅项包含未转义空格或控制字符。"

def surgePolicyPathIntervalError : Nat → Text :=
  itemError "Invalid request: interval: for Surge policy-path item #"
    " must be greater than zero. Omit it to use the client default.\n无效请求：第 "
    " 个 Surge policy-path 项的 interval: 必须大于 0；省略该前缀可使用客户端默认值。"

end Errors

section Remotes

structure Remote where
  groupId : Nat
  sourceTag : Text
  requestedName : Text
  selectionName : Text
deriving DecidableEq, Repr

structure NativeTarget where
  explicitlyRemote : TaggedLink → Bool
  -- In the capability check, as the reason for parsing on the server.
  refusal : TaggedLink → Option Text
  -- In the conversion, for a remote item.
  remoteError : TaggedLink → Text → Nat → Option Text
  interval : TaggedLink → Option Nat
  generatedName : Text
  prospectiveName : Text → List Text → Text
  createdName : Text → List Text → Text
  key : Text → Text

def TaggedLink.linkOr (tagged : TaggedLink) (item : Text) : Text := if tagged.link = [] then item else tagged.link

variable (legacy : Text → Bool) (target : NativeTarget)

-- The name that is asked for, and how many names were made up so far.
def requestedOrGenerated (requested : Text) (generated : Nat) : Text × Nat :=
  let sanitized := sanitizeRemoteResourceName requested
  if sanitized = [] then (target.generatedName ++ decimal (generated + 1), generated + 1) else (sanitized, generated)

def prospectiveRemotes : List Text → Nat → Nat → List Text → Except Text (List Remote)
  | [], _, _, _ => .ok []
  | rawItem :: rest, itemGroupId, generated, keys =>
    let tagged := parseTaggedLink (regTrim rawItem)
    let link := tagged.linkOr rawItem
    if startsWith (regTrim link) (chars "!!import:") then .error (chars "imported-source-list")
    else
      match target.refusal tagged with
      | some reason => .error reason
      | none =>
        if tagged.error = .none ∧ isHttpSubscriptionLink legacy link (target.explicitlyRemote tagged) then
          let (requested, generated) := requestedOrGenerated target (tagged.provider.getD []) generated
          let selection := target.prospectiveName requested keys
          (prospectiveRemotes rest (itemGroupId + 1) generated (target.key selection :: keys)).map
            (⟨itemGroupId, tagged.tag.getD [], tagged.provider.getD [], selection⟩ :: ·)
        else prospectiveRemotes rest (itemGroupId + 1) generated keys

-- The origin is the place in the url list; the code keeps the group id only.
structure RemoteItem where
  url : Text
  sourceTag : Text
  requestedName : Text
  interval : Option Nat
  groupId : Nat
  origin : Nat
deriving DecidableEq, Repr

structure NodeItem where
  url : Text
  groupId : Nat
  forceDirectLink : Bool
  origin : Nat
deriving DecidableEq, Repr

structure Sorted where
  remotes : List RemoteItem := []
  nodes : List NodeItem := []
deriving DecidableEq, Repr

def sortItem (item : Text) (index itemGroupId : Nat) : Except Text Sorted :=
  let x := regTrim item
  let tagged := parseTaggedLink x
  let link := tagged.linkOr x
  if tagged.error ≠ .none then .error (providerLinkPrefixError index tagged.error)
  else if isHttpSubscriptionLink legacy link (target.explicitlyRemote tagged) then
    match target.remoteError tagged link index with
    | some error => .error error
    | none => .ok { remotes := [⟨link, tagged.tag.getD [], tagged.provider.getD [], target.interval tagged, itemGroupId, index⟩] }
  else if tagged.interval ≠ none then .error (providerIntervalScopeError index)
  else if tagged.proxyDirect ≠ none then .error (providerDirectScopeError index)
  else
    let nodeLink := match tagged.tag with
      | some tag => chars "tag:" ++ tag ++ ',' :: link
      | none => link
    .ok { nodes := [⟨nodeLink, itemGroupId, legacy link, index⟩] }

def sortItems : List Text → Nat → Nat → Except Text Sorted
  | [], _, _ => .ok {}
  | item :: rest, index, groupId => do
    let here ← sortItem legacy target item index groupId
    let behind ← sortItems rest (index + 1) (groupId + 1)
    return ⟨here.remotes ++ behind.remotes, here.nodes ++ behind.nodes⟩

structure RemoteResource where
  remote : Remote
  url : Text
  interval : Option Nat
  origin : Nat
deriving DecidableEq, Repr

def createResources : List RemoteItem → Nat → List Text → List RemoteResource
  | [], _, _ => []
  | item :: rest, generated, keys =>
    let (requested, generated) := requestedOrGenerated target item.requestedName generated
    let name := target.createdName requested keys
    ⟨⟨item.groupId, item.sourceTag, item.requestedName, name⟩, item.url, item.interval, item.origin⟩ ::
      createResources rest generated (target.key name :: keys)

end Remotes

section Targets

def stashTarget : NativeTarget where
  explicitlyRemote tagged := tagged.provider.isSome || tagged.interval.isSome
  refusal tagged :=
    if tagged.proxyDirect.isSome then some (chars "unsupported-provider-proxy")
    else if tagged.interval = some 0 then some (chars "invalid-update-interval")
    else none
  remoteError tagged link index :=
    if tagged.proxyDirect.isSome then some (providerDirectScopeError index)
    else if tagged.interval = some 0 then some (surgePolicyPathIntervalError index)
    else if hasUnsafeQuanXRemoteUrlChar link then some (stashProxyProviderSourceError index)
    else none
  interval tagged := some (tagged.interval.getD 3600)
  generatedName := chars "SubConverter_Provider_"
  prospectiveName := reserveStashProviderName
  createdName := reserveStashProviderName
  key := toLower

-- The check takes the names as they are asked for.
def loonTarget : NativeTarget where
  explicitlyRemote tagged := tagged.provider.isSome
  refusal tagged := if tagged.interval.isSome then some (chars "unsupported-update-interval") else none
  remoteError tagged link index :=
    if tagged.interval.isSome then some (providerIntervalScopeError index)
    else if tagged.proxyDirect.isSome then some (providerDirectScopeError index)
    else if hasUnsafeQuanXRemoteUrlChar link then some (loonRemoteProxySourceError index)
    else none
  interval _ := none
  generatedName := chars "SubConverter_Remote_"
  prospectiveName requested _ := requested
  createdName := reserveLoonResourceName
  key := id

variable (legacy : Text → Bool) (target : NativeTarget)

def urlItems (url : Text) : List Text := split url '|'

def capabilityRemotes (url : Text) : Except Text (List Remote) := prospectiveRemotes legacy target (urlItems url) 0 0 []

def conversionResources (url : Text) : Except Text (List RemoteResource) :=
  (sortItems legacy target (urlItems url) 0 0).map fun sorted => createResources target sorted.remotes 0 []

end Targets

section HttpLinks

variable {legacy : Text → Bool} {item : Text} {explicitlyRemote : Bool}

theorem scheme_starts {link : Text} (http : isHttpSchemeLink link = true) : ∃ c rest, link = c :: rest ∧ c.toLower = 'h' := by
  unfold isHttpSchemeLink extractHierarchicalScheme at http
  cases cut : cutAt (chars "://") link with
  | none =>
    rw [cut] at http
    exact absurd http (by decide)
  | some pair =>
    obtain ⟨left, right⟩ := pair
    have whole := eq_of_cutAt cut
    rw [cut] at http
    simp only [Option.map_some, Option.getD_some, isHttpScheme, Bool.or_eq_true, decide_eq_true_eq] at http
    cases left with
    | nil => exact absurd http (by decide)
    | cons c rest =>
      refine ⟨c, rest ++ chars "://" ++ right, by rw [whole]; rfl, ?_⟩
      simp only [toLower, List.map_cons] at http
      rcases http with plain | secure
      · exact (List.cons.inj plain).1
      · exact (List.cons.inj secure).1

theorem not_isSpace_of_lower {c : Char} (starts : c.toLower = 'h') : isSpace c = false := by
  by_contra space
  have listed : [' ', '\t', '\x0c', '\x0b', '\n', '\r'].all fun c => c.toLower ≠ 'h' := by decide
  rw [Bool.not_eq_false] at space
  have found := List.all_eq_true.mp listed c (of_decide_eq_true space)
  simp [starts] at found

theorem extractLinkPrefix_http {c : Char} {rest mark : Text} (starts : c.toLower = 'h') (trimmed : strip isSpace (c :: rest) = c :: rest)
    (other : ∀ first ∈ mark.head?, first ≠ c) (present : mark ≠ []) : extractLinkPrefix (c :: rest) mark = none := by
  have bracket : '<' ≠ c := by
    rintro rfl
    exact absurd starts (by decide)
  cases mark with
  | nil => exact absurd rfl present
  | cons first more =>
    have differs := other first rfl
    simp [extractLinkPrefix, trimmed, dropPrefix?, startsWith, List.isPrefixOf, bracket, differs]

theorem parseTaggedLink_http {c : Char} {rest : Text} (starts : c.toLower = 'h') :
    parseTaggedLink (c :: rest) = { link := strip isSpace (c :: rest) } := by
  obtain ⟨tail, value⟩ := strip_cons (not_isSpace_of_lower starts) rest
  have trimmed : strip isSpace (c :: tail) = c :: tail := by rw [← value, strip_strip]
  have lower : toLower (c :: tail) = 'h' :: toLower tail := by rw [toLower, List.map_cons, starts, ← toLower]
  have other : ∀ mark ∈ plainPrefixes, extractLinkPrefix (c :: tail) mark = none := by
    intro mark there
    have listed : plainPrefixes.all fun mark => mark ≠ [] && mark.head?.all fun first => first.toLower ≠ 'h' := by decide
    have found := List.all_eq_true.mp listed mark there
    simp only [Bool.and_eq_true, decide_eq_true_eq] at found
    refine extractLinkPrefix_http starts trimmed ?_ found.1
    rintro first head rfl
    simp [Option.mem_def.mp head, starts] at found
  simp only [plainPrefixes, List.forall_mem_cons] at other
  have step : prefixStep {} (c :: tail) = .done := by
    simp only [prefixStep, other]
  have unread : parseLinkPrefixes (c :: tail) = none := by
    rw [parseLinkPrefixes, List.length_cons, parsePrefixes, step]
    simp [linkAfterPrefixes, trimmed, lower, startsWith, chars, List.isPrefixOf]
  have plain : looksLikeEncodedLinkPrefix (c :: tail) = false := by
    simp [looksLikeEncodedLinkPrefix, lower, encodedPrefixes, plainPrefixes, startsWith, chars, List.isPrefixOf]
  simp [parseTaggedLink, value, unread, plain]

theorem isHttpSubscriptionLink_of_scheme {link : Text} (other : isHttpSchemeLink link = false) :
    isHttpSubscriptionLink legacy link explicitlyRemote = false := by
  simp [isHttpSubscriptionLink, other]

theorem isHttpSubscriptionLink_raw :
    isHttpSubscriptionLink legacy ((parseTaggedLink (regTrim item)).linkOr (regTrim item)) explicitlyRemote =
      isHttpSubscriptionLink legacy ((parseTaggedLink (regTrim item)).linkOr item) explicitlyRemote := by
  unfold TaggedLink.linkOr
  by_cases empty : (parseTaggedLink (regTrim item)).link = []
  · have trimmedOther : isHttpSchemeLink (regTrim item) = false := by
      by_contra http
      obtain ⟨c, rest, starts, letter⟩ := scheme_starts (by simpa using http)
      obtain ⟨tail, value⟩ := strip_cons (not_isSpace_of_lower letter) rest
      rw [starts, parseTaggedLink_http letter, value] at empty
      cases empty
    have other : isHttpSchemeLink item = false := by
      by_contra http
      obtain ⟨c, rest, rfl, letter⟩ := scheme_starts (by simpa using http)
      have same : regTrim (c :: rest) = c :: rest := by simp [regTrim, not_isSpace_of_lower letter]
      rw [same] at trimmedOther
      exact http trimmedOther
    rw [if_pos empty, if_pos empty, isHttpSubscriptionLink_of_scheme other, isHttpSubscriptionLink_of_scheme trimmedOther]
  · rw [if_neg empty, if_neg empty]

end HttpLinks

section Agreement

variable {legacy : Text → Bool} {target : NativeTarget} {items : List Text} {index groupId generated : Nat} {keys : List Text}

def requestedNames (target : NativeTarget) : List RemoteItem → Nat → List Text
  | [], _ => []
  | item :: rest, generated =>
    let (requested, generated) := requestedOrGenerated target item.requestedName generated
    requested :: requestedNames target rest generated

def assignNames (target : NativeTarget) (name : Text → List Text → Text) : List Text → List Text → List Text
  | [], _ => []
  | requested :: rest, keys =>
    let assigned := name requested keys
    assigned :: assignNames target name rest (target.key assigned :: keys)

def remotesWith (remotes : List RemoteItem) (names : List Text) : List Remote :=
  List.zipWith (fun item name => ⟨item.groupId, item.sourceTag, item.requestedName, name⟩) remotes names

theorem createResources_remotes (remotes : List RemoteItem) :
    (createResources target remotes generated keys).map RemoteResource.remote =
      remotesWith remotes (assignNames target target.createdName (requestedNames target remotes generated) keys) := by
  induction remotes generalizing generated keys with
  | nil => rfl
  | cons item rest ih => simp [createResources, requestedNames, assignNames, remotesWith, ih]

theorem sortItem_ok {item : Text} {sorted : Sorted} (converted : sortItem legacy target item index groupId = .ok sorted) :
    let tagged := parseTaggedLink (regTrim item)
    let remote := isHttpSubscriptionLink legacy (tagged.linkOr item) (target.explicitlyRemote tagged)
    tagged.error = .none ∧ (remote = false → sorted.remotes = []) ∧
      (remote = true → ∃ link, sorted.remotes =
        [⟨link, tagged.tag.getD [], tagged.provider.getD [], target.interval tagged, groupId, index⟩]) := by
  unfold sortItem at converted
  simp only [isHttpSubscriptionLink_raw] at converted ⊢
  obtain ⟨noError, converted⟩ := guard_eq_ok_iff.mp converted
  refine ⟨not_not.mp noError, ?_, ?_⟩
  · intro node
    simp only [node, Bool.false_eq_true, if_false, guard_eq_ok_iff] at converted
    rw [← Except.ok.inj converted.2.2]
  · intro remote
    simp only [remote, if_true] at converted
    split at converted
    · cases converted
    · rw [← Except.ok.inj converted]
      exact ⟨_, rfl⟩

theorem prospectiveRemotes_eq {remotes : List Remote} {sorted : Sorted}
    (checked : prospectiveRemotes legacy target items groupId generated keys = .ok remotes)
    (converted : sortItems legacy target items index groupId = .ok sorted) :
    remotes = remotesWith sorted.remotes
      (assignNames target target.prospectiveName (requestedNames target sorted.remotes generated) keys) := by
  induction items generalizing index groupId generated keys remotes sorted with
  | nil =>
    obtain rfl := Except.ok.inj checked
    obtain rfl := Except.ok.inj converted
    rfl
  | cons item rest ih =>
    obtain ⟨here, sortedHere, converted⟩ := bind_eq_ok_iff.mp converted
    obtain ⟨behind, sortedBehind, converted⟩ := bind_eq_ok_iff.mp converted
    obtain rfl := Except.ok.inj converted
    obtain ⟨noError, node, remote⟩ := sortItem_ok sortedHere
    rw [prospectiveRemotes] at checked
    simp only at checked
    obtain ⟨-, checked⟩ := guard_eq_ok_iff.mp checked
    cases refused : target.refusal (parseTaggedLink (regTrim item)) with
    | some reason => simp [refused] at checked
    | none =>
      simp only [refused, noError, true_and] at checked
      cases kind : isHttpSubscriptionLink legacy ((parseTaggedLink (regTrim item)).linkOr item)
          (target.explicitlyRemote (parseTaggedLink (regTrim item))) with
      | true =>
        obtain ⟨link, single⟩ := remote kind
        simp only [kind, if_true] at checked
        obtain ⟨others, checkedBehind, rfl⟩ := map_eq_ok_iff.mp checked
        rw [ih checkedBehind sortedBehind]
        simp only [single, List.cons_append, List.nil_append, requestedNames, assignNames, remotesWith, List.zipWith_cons_cons]
      | false =>
        simp only [kind, Bool.false_eq_true, if_false] at checked
        simp only [node kind, List.nil_append]
        exact ih checked sortedBehind

theorem selectionNames_remotesWith {remotes : List RemoteItem} {names : List Text} (length : names.length = remotes.length) :
    (remotesWith remotes names).map Remote.selectionName = names := by
  induction remotes generalizing names with
  | nil => simpa [remotesWith] using (List.eq_nil_of_length_eq_zero length).symm
  | cons item rest ih =>
    cases names with
    | nil => cases length
    | cons name more =>
      have tail := ih (Nat.succ.inj length)
      simpa [remotesWith] using tail

theorem remotesWith_inj {remotes : List RemoteItem} {first second : List Text} (left : first.length = remotes.length)
    (right : second.length = remotes.length) : remotesWith remotes first = remotesWith remotes second ↔ first = second := by
  constructor
  · intro same
    rw [← selectionNames_remotesWith left, same, selectionNames_remotesWith right]
  · exact fun same => same ▸ rfl

theorem length_requestedNames (remotes : List RemoteItem) : (requestedNames target remotes generated).length = remotes.length := by
  induction remotes generalizing generated with
  | nil => rfl
  | cons item rest ih => simp [requestedNames, ih]

theorem length_assignNames (name : Text → List Text → Text) (requested : List Text) :
    (assignNames target name requested keys).length = requested.length := by
  induction requested generalizing keys with
  | nil => rfl
  | cons first rest ih => simp [assignNames, ih]

end Agreement

section Loon

theorem length_sanitizeRemoteResourceName_le (input : Text) : (sanitizeRemoteResourceName input).length ≤ 64 := by
  unfold sanitizeRemoteResourceName
  refine (length_strip_le _ _).trans ?_
  rw [List.length_map]
  unfold sanitizeProviderName
  simp only
  split
  · simp
  · split
    · simp
    · exact (length_trimOf_le _ _).trans (length_clampProviderNameLength_le _ _)

theorem reserveLoonResourceName_eq_iff {requested : Text} (present : requested ≠ []) (short : requested.length ≤ 64)
    (used : List Text) : reserveLoonResourceName requested used = requested ↔ requested ∉ used := by
  have base : loonBaseName requested = requested := by
    simp [loonBaseName, clampProviderNameLength, short, orDefault, present]
  constructor
  · intro same
    rw [← same]
    exact reserveLoonResourceName_not_mem requested used
  · intro free
    simp [reserveLoonResourceName, reserveName, base, free]

theorem assignNames_loon_iff {requested keys : List Text} (names : ∀ name ∈ requested, name ≠ [] ∧ name.length ≤ 64) :
    assignNames loonTarget reserveLoonResourceName requested keys = requested ↔
      requested.Nodup ∧ ∀ name ∈ requested, name ∉ keys := by
  induction requested generalizing keys with
  | nil => simp [assignNames]
  | cons first rest ih =>
    obtain ⟨⟨present, short⟩, others⟩ := List.forall_mem_cons.mp names
    simp only [assignNames, List.cons.injEq, reserveLoonResourceName_eq_iff present short, List.nodup_cons, List.forall_mem_cons]
    have behind (same : reserveLoonResourceName first keys = first) :
        assignNames loonTarget reserveLoonResourceName rest
            (loonTarget.key (reserveLoonResourceName first keys) :: keys) = rest ↔
          rest.Nodup ∧ ∀ name ∈ rest, name ≠ first ∧ name ∉ keys := by
      rw [ih others, same]
      simp [loonTarget]
    constructor
    · rintro ⟨free, same⟩
      obtain ⟨different, apart⟩ := (behind ((reserveLoonResourceName_eq_iff present short keys).mpr free)).mp same
      exact ⟨⟨fun there => (apart first there).1 rfl, different⟩, free, fun name there => (apart name there).2⟩
    · rintro ⟨⟨absent, different⟩, free, apart⟩
      refine ⟨free, (behind ((reserveLoonResourceName_eq_iff present short keys).mpr free)).mpr ⟨different, fun name there => ?_⟩⟩
      exact ⟨fun same => absent (same ▸ there), apart name there⟩

theorem requestedNames_fit {remotes : List RemoteItem} {generated : Nat} (few : generated + remotes.length ≤ 2 ^ 64) :
    ∀ name ∈ requestedNames loonTarget remotes generated, name ≠ [] ∧ name.length ≤ 64 := by
  induction remotes generalizing generated with
  | nil => simp [requestedNames]
  | cons item rest ih =>
    rw [List.length_cons] at few
    rw [requestedNames, List.forall_mem_cons]
    by_cases blank : sanitizeRemoteResourceName item.requestedName = []
    · simp only [requestedOrGenerated, blank, if_true]
      refine ⟨⟨by simp [loonTarget, chars], ?_⟩, ih (by omega)⟩
      have digits : (decimal (generated + 1)).length ≤ 20 :=
        (Nat.length_toDigits_le_iff (by decide) (by decide)).mpr (by norm_num at few ⊢; omega)
      rw [List.length_append]
      have label : loonTarget.generatedName.length = 20 := by decide
      omega
    · simp only [requestedOrGenerated, blank, if_false]
      exact ⟨⟨blank, length_sanitizeRemoteResourceName_le item.requestedName⟩, ih (by omega)⟩

variable {legacy : Text → Bool}

theorem length_sortItems_remotes_le {target : NativeTarget} {items : List Text} {index groupId : Nat} {sorted : Sorted}
    (converted : sortItems legacy target items index groupId = .ok sorted) : sorted.remotes.length ≤ items.length := by
  induction items generalizing index groupId sorted with
  | nil => simp [← Except.ok.inj converted]
  | cons item rest ih =>
    obtain ⟨here, sortedHere, converted⟩ := bind_eq_ok_iff.mp converted
    obtain ⟨behind, sortedBehind, converted⟩ := bind_eq_ok_iff.mp converted
    obtain rfl := Except.ok.inj converted
    obtain ⟨-, node, remote⟩ := sortItem_ok sortedHere
    have short : here.remotes.length ≤ 1 := by
      cases kind : isHttpSubscriptionLink legacy ((parseTaggedLink (regTrim item)).linkOr item)
          (target.explicitlyRemote (parseTaggedLink (regTrim item))) with
      | true =>
        obtain ⟨link, single⟩ := remote kind
        simp [single]
      | false => simp [node kind]
    have others := ih sortedBehind
    simp only [List.length_append, List.length_cons]
    omega

end Loon

section Results

variable {legacy : Text → Bool} {url : Text}

def loonNames (legacy : Text → Bool) (url : Text) : List Text :=
  match sortItems legacy loonTarget (urlItems url) 0 0 with
  | .ok sorted => requestedNames loonTarget sorted.remotes 0
  | .error _ => []

theorem length_urlItems_le (url : Text) : (urlItems url).length ≤ url.length + 1 := by
  refine le_trans ?_ (length_splitOn_le '|' url)
  unfold urlItems split
  simp only
  split
  · simp
  · exact le_rfl

theorem remote_lists_agree_iff (sized : url.length < 2 ^ 64) :
    (∀ remotes resources, capabilityRemotes legacy stashTarget url = .ok remotes →
      conversionResources legacy stashTarget url = .ok resources → remotes = resources.map RemoteResource.remote) ∧
    ∀ remotes resources, capabilityRemotes legacy loonTarget url = .ok remotes →
      conversionResources legacy loonTarget url = .ok resources →
        (remotes = resources.map RemoteResource.remote ↔ (loonNames legacy url).Nodup) := by
  constructor
  · intro remotes resources checked converted
    obtain ⟨sorted, sortedAs, rfl⟩ := map_eq_ok_iff.mp converted
    rw [prospectiveRemotes_eq checked sortedAs, createResources_remotes]
    rfl
  · intro remotes resources checked converted
    obtain ⟨sorted, sortedAs, rfl⟩ := map_eq_ok_iff.mp converted
    have few : 0 + sorted.remotes.length ≤ 2 ^ 64 := by
      have bound := (length_sortItems_remotes_le sortedAs).trans (length_urlItems_le url)
      omega
    have uncut : assignNames loonTarget loonTarget.prospectiveName (requestedNames loonTarget sorted.remotes 0) [] =
        requestedNames loonTarget sorted.remotes 0 := by
      have kept : ∀ (names keys : List Text), assignNames loonTarget loonTarget.prospectiveName names keys = names := by
        intro names
        induction names with
        | nil => exact fun _ => rfl
        | cons name rest ih => exact fun keys => congrArg (name :: ·) (ih _)
      exact kept _ _
    rw [prospectiveRemotes_eq checked sortedAs, createResources_remotes, uncut,
      remotesWith_inj (length_requestedNames _) (by rw [length_assignNames, length_requestedNames]), eq_comm]
    have named : assignNames loonTarget reserveLoonResourceName (requestedNames loonTarget sorted.remotes 0) [] =
        requestedNames loonTarget sorted.remotes 0 ↔
          (requestedNames loonTarget sorted.remotes 0).Nodup ∧
            ∀ name ∈ requestedNames loonTarget sorted.remotes 0, name ∉ ([] : List Text) :=
      assignNames_loon_iff (requestedNames_fit few)
    simp only [List.not_mem_nil, not_false_eq_true, implies_true, and_true] at named
    rw [loonNames, sortedAs]
    exact named

def plainUrl : Text := chars "provider:a,https://h/s|provider:b,https://h/t"

def repeatedUrl : Text := chars "provider:a,https://h/s|provider:a,https://h/t"

def twoRemotes (first second : Text) : List Remote := [⟨0, [], first, first⟩, ⟨1, [], second, second⟩]

def twoResources (first second : Text) (interval : Option Nat) : List RemoteResource :=
  [⟨⟨0, [], first, first⟩, chars "https://h/s", interval, 0⟩, ⟨⟨1, [], second, second⟩, chars "https://h/t", interval, 1⟩]

theorem remote_lists_agree_domain :
    twoRemotes ['a'] ['b'] = (twoResources ['a'] ['b'] (some 3600)).map RemoteResource.remote ∧
      (twoRemotes ['a'] ['b'] = (twoResources ['a'] ['b'] none).map RemoteResource.remote ↔ (loonNames (fun _ => false) plainUrl).Nodup) := by
  have agree := @remote_lists_agree_iff (fun _ => false) plainUrl (by decide)
  exact ⟨agree.1 _ _ (by decide) (by decide), agree.2 _ _ (by decide) (by decide)⟩

theorem loon_remotes_disagree : ∃ remotes resources,
    capabilityRemotes (fun _ => false) loonTarget repeatedUrl = .ok remotes ∧
      conversionResources (fun _ => false) loonTarget repeatedUrl = .ok resources ∧
        remotes.map Remote.selectionName = [['a'], ['a']] ∧
          resources.map (fun resource => resource.remote.selectionName) = [['a'], chars "a_1"] := by
  refine ⟨twoRemotes ['a'] ['a'],
    [⟨⟨0, [], ['a'], ['a']⟩, chars "https://h/s", none, 0⟩, ⟨⟨1, [], ['a'], chars "a_1"⟩, chars "https://h/t", none, 1⟩], ?_⟩
  decide

end Results

end SubConverter.Handler
