import SubConverter.Handler.RemoteResources

set_option autoImplicit false

namespace SubConverter.Handler

section Links

def supportedSchemes : List Text :=
  [chars "hysteria", chars "hysteria2", chars "hy2", chars "hysteria2+realm", chars "hy2+realm", chars "tuic", chars "trojan",
    chars "vless", chars "vmess", chars "ss", chars "ssr", chars "socks", chars "socks5", chars "socks5h", chars "http",
    chars "https", chars "anytls", chars "mierus"]

def isSupportedSchemeName (scheme : Text) : Bool := scheme = chars "mieru" || scheme ∈ supportedSchemes

def isSupportedSchemeLink (link : Text) : Bool :=
  let scheme := extractHierarchicalScheme link
  scheme ≠ [] && isSupportedSchemeName scheme

def isSupportedNonHttpSchemeLink (link : Text) : Bool :=
  let scheme := extractHierarchicalScheme link
  scheme ≠ [] && !isHttpScheme scheme && isSupportedSchemeName scheme

def isLink (url : Text) : Bool :=
  startsWith url (chars "https://") || startsWith url (chars "http://") || startsWith url (chars "data:")

end Links

section Nodes

structure SourceEnv where
  isLegacyHttpProxyUri : Text → Bool
  mihomoParser : Bool
  runScript : Text → Text
  -- Remark and group of the nodes that a link is parsed into and that pass the filters; the flag is `force_direct_link`.
  parseNodes : Bool → Text → List (Text × Text)
  readImport : Text → Text
  providerHash : Bool → Text → Text
  proxyProviderInterval : Nat
  providerProxyDirect : Bool
  -- How often a link may be taken apart again.
  depth : Nat

-- The origin is the place in the url list of the item that a node was made from; the code keeps the group id only.
structure Node where
  remark : Text
  group : Text
  groupId : Nat
  placeholder : Bool := false
  origin : Nat
deriving DecidableEq, Repr

variable (env : SourceEnv)

def separable (force : Bool) (link : Text) : Bool :=
  '|' ∈ link && (isLink link || (env.mihomoParser && isSupportedSchemeLink link) ||
    (!force && startsWith link (chars "surge:///install-config")))

-- The group in front of a link takes the place of the group of its nodes.
def customGroup (link : Text) : Text × Text :=
  match dropPrefix? (chars "tag:") link with
  | none => ([], link)
  | some rest => (cutAt [','] rest).getD ([], link)

def addNodes : Nat → Bool → Text → Nat → Nat → List Node
  | depth, force, link, groupId, origin =>
    let (custom, link) := customGroup (env.runScript (link.filter (· ≠ '\x22')))
    if link = chars "nullnode" then [⟨[], [], 0, true, origin⟩]
    else if separable env force link then
      match depth with
      | 0 => []
      | depth + 1 => ((split link '|').filter (· ≠ [])).flatMap fun part => addNodes depth force part groupId origin
    else (env.parseNodes force link).map fun node => ⟨node.1, if custom = [] then node.2 else custom, groupId, false, origin⟩

def isImportComment (line : Text) : Bool :=
  line = [] || startsWith line [';'] || startsWith line ['#'] || startsWith line ['/', '/']

def importLines (content : Text) : List Text :=
  ((split content (getLineBreak content)).map fun line => if line.getLast? = some '\r' then line.dropLast else line).filter
    fun line => !isImportComment line

-- Nothing is replaced when one of the imports yields nothing.
def importItems : List (Text × Nat) → Option (List (Text × Nat))
  | [] => some []
  | (item, origin) :: rest =>
    if !hasInfix (chars "!!import:") item then (importItems rest).map ((item, origin) :: ·)
    else
      let content := env.readImport (((cutAt [':'] item).map Prod.snd).getD item)
      if content = [] then none
      else (importItems rest).map fun behind => (importLines content).map (fun line => (line, origin)) ++ behind

def importedItems (items : List (Text × Nat)) : List (Text × Nat) := (importItems env items).getD items

def addNumbered (force : Text → Bool) : List (Text × Nat) → Nat → List Node
  | [], _ => []
  | (x, origin) :: rest, groupID => addNodes env env.depth (force x) x groupID origin ++ addNumbered force rest (groupID + 1)

end Nodes

section Modes

structure ProxyProvider where
  name : Text
  tag : Text
  url : Text
  interval : Nat
  proxyDirect : Bool
  groupId : Nat
  origin : Nat
deriving DecidableEq, Repr

structure Sources where
  providers : List ProxyProvider := []
  remotes : List RemoteResource := []
  nodes : List Node := []
deriving DecidableEq, Repr

variable (env : SourceEnv)

structure ClashSorted where
  subscriptions : List (Text × TaggedLink × Nat) := []
  nodeUrls : List (Text × Nat) := []
deriving DecidableEq, Repr

def taggedUrl (tagged : TaggedLink) (link : Text) : Text :=
  match tagged.tag with
  | some tag => chars "tag:" ++ tag ++ ',' :: link
  | none => link

def clashItem (item : Text) (index : Nat) : Except Text ClashSorted :=
  let x := regTrim item
  let tagged := parseTaggedLink x
  let link := tagged.linkOr x
  if tagged.error ≠ .none then .error (providerLinkPrefixError index tagged.error)
  else if !isSupportedNonHttpSchemeLink link && (isLink link || isHttpSchemeLink link) then
    .ok { subscriptions := [(link, tagged, index)] }
  else if tagged.interval ≠ none then .error (providerIntervalScopeError index)
  else if tagged.proxyDirect ≠ none then .error (providerDirectScopeError index)
  else .ok { nodeUrls := [(taggedUrl tagged link, index)] }

def clashItems : List Text → Nat → Except Text ClashSorted
  | [], _ => .ok {}
  | item :: rest, index => do
    let here ← clashItem item index
    let behind ← clashItems rest (index + 1)
    return ⟨here.subscriptions ++ behind.subscriptions, here.nodeUrls ++ behind.nodeUrls⟩

def createProviders : List (Text × TaggedLink × Nat) → Nat → List Text → List ProxyProvider
  | [], _, _ => []
  | (url, tagged, origin) :: rest, groupID, names =>
    let default := chars "Provider_" ++ env.providerHash tagged.linkDecoded url
    let base := sanitizeProviderName (orDefault default (sanitizeProviderName (tagged.provider.getD [])))
    let name := reserveProviderName (orDefault default base) names
    ⟨name, tagged.tag.getD [], url, tagged.interval.getD env.proxyProviderInterval,
        tagged.proxyDirect.getD env.providerProxyDirect, groupID, origin⟩ :: createProviders rest (groupID + 1) (name :: names)

def clashSources (urls : List Text) : Except Text Sources := do
  let sorted ← clashItems urls 0
  return {
    providers := createProviders env sorted.subscriptions 0 []
    nodes := addNumbered env (fun _ => false) (importedItems env sorted.nodeUrls) sorted.subscriptions.length }

def nativeNodes (items : List NodeItem) : List Node :=
  items.flatMap fun item =>
    match importItems env [(item.url, item.origin)] with
    | none => []
    | some lines => lines.flatMap fun line => addNodes env env.depth item.forceDirectLink line.1 item.groupId line.2

def nativeSources (target : NativeTarget) (urls : List Text) : Except Text Sources := do
  let sorted ← sortItems env.isLegacyHttpProxyUri target urls 0 0
  return {
    remotes := createResources target sorted.remotes 0 []
    nodes := nativeNodes env sorted.nodes }

-- The flag tells whether the target has native remote subscriptions, which were not chosen here.
def plainItem (native : Bool) (item : Text) (index : Nat) : Except Text Text :=
  let tagged := parseTaggedLink (regTrim item)
  if tagged.error ≠ .none then .error (providerLinkPrefixError index tagged.error)
  else if tagged.interval ≠ none then .error (providerIntervalScopeError index)
  else if tagged.proxyDirect ≠ none then .error (providerDirectScopeError index)
  else .ok (if native ∧ tagged.provider ≠ none then taggedUrl tagged tagged.link else item)

def plainItems (native : Bool) : List Text → Nat → Except Text (List (Text × Nat))
  | [], _ => .ok []
  | item :: rest, index => do
    let here ← plainItem native item index
    let behind ← plainItems native rest (index + 1)
    return (here, index) :: behind

def plainLines (items : List (Text × Nat)) : List (Text × Nat) :=
  (importedItems env items).map fun line => (regTrim line.1, line.2)

def plainForce (native : Bool) (x : Text) : Bool := native && env.isLegacyHttpProxyUri ((parseTaggedLink x).linkOr x)

def plainSources (native : Bool) (urls : List Text) : Except Text Sources := do
  let items ← plainItems native urls 0
  return { nodes := addNumbered env (plainForce env native) (plainLines env items) 0 }

inductive Mode where
  | plain (native : Bool)
  | clash
  | stash
  | loon
deriving DecidableEq, Repr

def processSources : Mode → Text → Except Text Sources
  | .plain native, url => plainSources env native (urlItems url)
  | .clash, url => clashSources env (urlItems url)
  | .stash, url => nativeSources env stashTarget (urlItems url)
  | .loon, url => nativeSources env loonTarget (urlItems url)

end Modes

section Positions

variable (env : SourceEnv)

structure Sources.Positioned (sources : Sources) : Prop where
  providers : ∀ provider ∈ sources.providers, provider.groupId = provider.origin
  remotes : ∀ resource ∈ sources.remotes, resource.remote.groupId = resource.origin
  nodes : ∀ node ∈ sources.nodes, node.groupId = node.origin

def Yields (force : Bool) (x : Text) (placeholder : Bool) : Prop :=
  ∃ node ∈ addNodes env env.depth force x 0 0, node.placeholder = placeholder

-- A line that yields nodes stands where its item stands, and a placeholder can only be made from the first item.
def Placed (force : Text → Bool) (lines : List (Text × Nat)) (first : Nat) : Prop :=
  ∀ entry ∈ lines.zipIdx first, (Yields env (force entry.1.1) entry.1.1 false → entry.2 = entry.1.2) ∧
    (Yields env (force entry.1.1) entry.1.1 true → entry.1.2 = 0)

def nativeLines (item : NodeItem) : List (Text × Nat) := (importItems env [(item.url, item.origin)]).getD []

def KeepsPositions : Mode → Text → Prop
  | .plain native, url => ∀ items, plainItems native (urlItems url) 0 = .ok items →
    Placed env (plainForce env native) (plainLines env items) 0
  | .clash, url => ∀ sorted, clashItems (urlItems url) 0 = .ok sorted →
    (∀ subscription ∈ sorted.subscriptions, ∀ node ∈ sorted.nodeUrls, subscription.2.2 < node.2) ∧
      Placed env (fun _ => false) (importedItems env sorted.nodeUrls) sorted.subscriptions.length
  | .stash, url => ∀ sorted, sortItems env.isLegacyHttpProxyUri stashTarget (urlItems url) 0 0 = .ok sorted →
    ∀ item ∈ sorted.nodes, ∀ line ∈ nativeLines env item, Yields env item.forceDirectLink line.1 true → item.origin = 0
  | .loon, url => ∀ sorted, sortItems env.isLegacyHttpProxyUri loonTarget (urlItems url) 0 0 = .ok sorted →
    ∀ item ∈ sorted.nodes, ∀ line ∈ nativeLines env item, Yields env item.forceDirectLink line.1 true → item.origin = 0

end Positions

section Numbering

variable {env : SourceEnv} {force : Bool} {x : Text} {groupId origin : Nat}

def Node.placed (node : Node) (groupId origin : Nat) : Node :=
  { node with groupId := if node.placeholder then 0 else groupId, origin := origin }

theorem addNodes_eq (depth : Nat) (force : Bool) (link : Text) (groupId origin : Nat) :
    addNodes env depth force link groupId origin = (addNodes env depth force link 0 0).map fun node => node.placed groupId origin := by
  induction depth generalizing link with
  | zero =>
    rw [addNodes, addNodes]
    simp only
    split
    · rfl
    · split
      · rfl
      · simp [Node.placed]
  | succ depth ih =>
    rw [addNodes, addNodes]
    simp only
    split
    · rfl
    · split
      · rw [List.map_flatMap]
        exact List.flatMap_congr fun part _ => ih part
      · simp [Node.placed]

theorem addNodes_placed_iff : (∀ node ∈ addNodes env env.depth force x groupId origin, node.groupId = node.origin) ↔
    (Yields env force x false → groupId = origin) ∧ (Yields env force x true → origin = 0) := by
  rw [addNodes_eq, List.forall_mem_map]
  constructor
  · intro all
    constructor
    · rintro ⟨node, there, ordinary⟩
      simpa [Node.placed, ordinary] using all node there
    · rintro ⟨node, there, placeholder⟩
      simpa [Node.placed, placeholder, eq_comm] using all node there
  · rintro ⟨ordinary, placeholder⟩ node there
    cases kind : node.placeholder with
    | false => simpa [Node.placed, kind] using ordinary ⟨node, there, kind⟩
    | true => simpa [Node.placed, kind, eq_comm] using placeholder ⟨node, there, kind⟩

theorem addNumbered_placed_iff {force : Text → Bool} {lines : List (Text × Nat)} {first : Nat} :
    (∀ node ∈ addNumbered env force lines first, node.groupId = node.origin) ↔ Placed env force lines first := by
  induction lines generalizing first with
  | nil => simp [addNumbered, Placed]
  | cons line rest ih =>
    rw [addNumbered, List.forall_mem_append, addNodes_placed_iff, ih, Placed, Placed, List.zipIdx_cons, List.forall_mem_cons]

end Numbering

section Clash

variable {env : SourceEnv} {urls : List Text} {index : Nat} {sorted : ClashSorted}

theorem createProviders_placed_iff {subscriptions : List (Text × TaggedLink × Nat)} {groupID : Nat} {names : List Text} :
    (∀ provider ∈ createProviders env subscriptions groupID names, provider.groupId = provider.origin) ↔
      ∀ entry ∈ subscriptions.zipIdx groupID, entry.2 = entry.1.2.2 := by
  induction subscriptions generalizing groupID names with
  | nil => simp [createProviders]
  | cons subscription rest ih =>
    rw [createProviders, List.forall_mem_cons, ih, List.zipIdx_cons, List.forall_mem_cons]

theorem clashItem_ok {item : Text} (converted : clashItem item index = .ok sorted) :
    (∃ link tagged, sorted = { subscriptions := [(link, tagged, index)] }) ∨ ∃ link, sorted = { nodeUrls := [(link, index)] } := by
  unfold clashItem at converted
  obtain ⟨-, converted⟩ := guard_eq_ok_iff.mp converted
  split at converted
  · exact .inl ⟨_, _, (Except.ok.inj converted).symm⟩
  · obtain ⟨-, converted⟩ := guard_eq_ok_iff.mp converted
    obtain ⟨-, converted⟩ := guard_eq_ok_iff.mp converted
    exact .inr ⟨_, (Except.ok.inj converted).symm⟩

theorem clashItems_origins (converted : clashItems urls index = .ok sorted) :
    (∀ subscription ∈ sorted.subscriptions, index ≤ subscription.2.2) ∧ (∀ node ∈ sorted.nodeUrls, index ≤ node.2) ∧
      ((∀ entry ∈ sorted.subscriptions.zipIdx index, entry.2 = entry.1.2.2) ↔
        ∀ subscription ∈ sorted.subscriptions, ∀ node ∈ sorted.nodeUrls, subscription.2.2 < node.2) := by
  induction urls generalizing index sorted with
  | nil => simp [← Except.ok.inj converted]
  | cons item rest ih =>
    obtain ⟨here, convertedHere, converted⟩ := bind_eq_ok_iff.mp converted
    obtain ⟨behind, convertedBehind, converted⟩ := bind_eq_ok_iff.mp converted
    obtain rfl := Except.ok.inj converted
    obtain ⟨subscriptions, nodes, first⟩ := ih convertedBehind
    obtain ⟨link, tagged, rfl⟩ | ⟨link, rfl⟩ := clashItem_ok convertedHere
    · simp only [List.cons_append, List.nil_append, List.zipIdx_cons, List.forall_mem_cons, true_and, first]
      refine ⟨⟨le_rfl, fun other there => by have := subscriptions other there; omega⟩, fun node there => by have := nodes node there; omega, ?_⟩
      exact ⟨fun all => ⟨fun node there => nodes node there, all⟩, fun all => all.2⟩
    · simp only [List.cons_append, List.nil_append, List.forall_mem_cons]
      refine ⟨fun other there => by have := subscriptions other there; omega,
        ⟨le_rfl, fun node there => by have := nodes node there; omega⟩, ?_⟩
      -- A subscription behind the node link is out of place on both sides.
      cases left : behind.subscriptions with
      | nil => simp
      | cons subscription more =>
        have late := subscriptions subscription (left ▸ List.mem_cons_self)
        constructor
        · intro all
          have place : index = subscription.2.2 := all (subscription, index) (by rw [List.zipIdx_cons]; exact List.mem_cons_self)
          omega
        · intro all
          have place := (all subscription List.mem_cons_self).1
          omega

end Clash

section Native

variable {env : SourceEnv} {target : NativeTarget} {legacy : Text → Bool} {urls : List Text} {index : Nat} {sorted : Sorted}

theorem importItems_origin {items lines : List (Text × Nat)} {origin : Nat} (same : ∀ item ∈ items, item.2 = origin)
    (imported : importItems env items = some lines) : ∀ line ∈ lines, line.2 = origin := by
  induction items generalizing lines with
  | nil => simp [← Option.some.inj imported]
  | cons item rest ih =>
    obtain ⟨text, place⟩ := item
    obtain ⟨here, others⟩ := List.forall_mem_cons.mp same
    rw [importItems] at imported
    split at imported
    · obtain ⟨behind, importedBehind, rfl⟩ := Option.map_eq_some_iff.mp imported
      exact List.forall_mem_cons.mpr ⟨here, ih others importedBehind⟩
    · simp only at imported
      split at imported
      · cases imported
      · obtain ⟨behind, importedBehind, rfl⟩ := Option.map_eq_some_iff.mp imported
        rw [List.forall_mem_append, List.forall_mem_map]
        exact ⟨fun _ _ => here, ih others importedBehind⟩

theorem sortItems_origins (converted : sortItems legacy target urls index index = .ok sorted) :
    (∀ item ∈ sorted.remotes, item.groupId = item.origin) ∧ ∀ item ∈ sorted.nodes, item.groupId = item.origin := by
  induction urls generalizing index sorted with
  | nil => simp [← Except.ok.inj converted]
  | cons item rest ih =>
    obtain ⟨here, convertedHere, converted⟩ := bind_eq_ok_iff.mp converted
    obtain ⟨behind, convertedBehind, converted⟩ := bind_eq_ok_iff.mp converted
    obtain rfl := Except.ok.inj converted
    obtain ⟨remotes, nodes⟩ := ih convertedBehind
    have own : (∀ item ∈ here.remotes, item.groupId = item.origin) ∧ ∀ item ∈ here.nodes, item.groupId = item.origin := by
      unfold sortItem at convertedHere
      obtain ⟨-, convertedHere⟩ := guard_eq_ok_iff.mp convertedHere
      split at convertedHere
      · split at convertedHere
        · cases convertedHere
        · simp [← Except.ok.inj convertedHere]
      · obtain ⟨-, convertedHere⟩ := guard_eq_ok_iff.mp convertedHere
        obtain ⟨-, convertedHere⟩ := guard_eq_ok_iff.mp convertedHere
        simp [← Except.ok.inj convertedHere]
    exact ⟨List.forall_mem_append.mpr ⟨own.1, remotes⟩, List.forall_mem_append.mpr ⟨own.2, nodes⟩⟩

theorem createResources_origins {items : List RemoteItem} {generated : Nat} {keys : List Text}
    (same : ∀ item ∈ items, item.groupId = item.origin) :
    ∀ resource ∈ createResources target items generated keys, resource.remote.groupId = resource.origin := by
  induction items generalizing generated keys with
  | nil => simp [createResources]
  | cons item rest ih =>
    obtain ⟨here, others⟩ := List.forall_mem_cons.mp same
    exact List.forall_mem_cons.mpr ⟨here, ih others⟩

theorem nativeNodes_placed_iff {items : List NodeItem} (same : ∀ item ∈ items, item.groupId = item.origin) :
    (∀ node ∈ nativeNodes env items, node.groupId = node.origin) ↔
      ∀ item ∈ items, ∀ line ∈ nativeLines env item, Yields env item.forceDirectLink line.1 true → item.origin = 0 := by
  have nodes : nativeNodes env items = items.flatMap fun item =>
      (nativeLines env item).flatMap fun line => addNodes env env.depth item.forceDirectLink line.1 item.groupId line.2 := by
    apply List.flatMap_congr
    intro item _
    unfold nativeLines
    cases importItems env [(item.url, item.origin)] with
    | none => rfl
    | some lines => rfl
  have origins : ∀ item, ∀ line ∈ nativeLines env item, line.2 = item.origin := by
    intro item line there
    unfold nativeLines at there
    cases imported : importItems env [(item.url, item.origin)] with
    | none => simp [imported] at there
    | some lines =>
      rw [imported] at there
      exact importItems_origin (by simp) imported line there
  rw [nodes]
  constructor
  · intro all item there line among placeholder
    have placed := addNodes_placed_iff.mp fun node made =>
      all node (List.mem_flatMap.mpr ⟨item, there, List.mem_flatMap.mpr ⟨line, among, made⟩⟩)
    exact origins item line among ▸ placed.2 placeholder
  · intro first node made
    obtain ⟨item, there, made⟩ := List.mem_flatMap.mp made
    obtain ⟨line, among, made⟩ := List.mem_flatMap.mp made
    have place := origins item line among
    refine addNodes_placed_iff.mpr ⟨fun _ => ?_, fun placeholder => ?_⟩ node made
    · rw [place, same item there]
    · rw [place, first item there line among placeholder]

end Native

section Results

variable {env : SourceEnv} {mode : Mode} {url : Text} {sources : Sources}

theorem nativeSources_positioned_iff {target : NativeTarget} (processed : nativeSources env target (urlItems url) = .ok sources) :
    sources.Positioned ↔ ∀ sorted, sortItems env.isLegacyHttpProxyUri target (urlItems url) 0 0 = .ok sorted →
      ∀ item ∈ sorted.nodes, ∀ line ∈ nativeLines env item, Yields env item.forceDirectLink line.1 true → item.origin = 0 := by
  obtain ⟨sorted, converted, processed⟩ := bind_eq_ok_iff.mp processed
  obtain rfl := Except.ok.inj processed
  obtain ⟨remotes, nodes⟩ := sortItems_origins converted
  simp only [converted, Except.ok.injEq, forall_eq', ← nativeNodes_placed_iff nodes]
  constructor
  · rintro ⟨-, -, placed⟩
    exact placed
  · intro placed
    exact ⟨by simp, createResources_origins remotes, placed⟩

theorem sources_positioned_iff (processed : processSources env mode url = .ok sources) :
    sources.Positioned ↔ KeepsPositions env mode url := by
  cases mode with
  | plain native =>
    obtain ⟨items, converted, processed⟩ := bind_eq_ok_iff.mp processed
    obtain rfl := Except.ok.inj processed
    simp only [KeepsPositions, converted, Except.ok.injEq, forall_eq', ← addNumbered_placed_iff]
    constructor
    · rintro ⟨-, -, placed⟩
      exact placed
    · intro placed
      exact ⟨by simp, by simp, placed⟩
  | clash =>
    obtain ⟨sorted, converted, processed⟩ := bind_eq_ok_iff.mp processed
    obtain rfl := Except.ok.inj processed
    have first := (clashItems_origins converted).2.2
    simp only [KeepsPositions, converted, Except.ok.injEq, forall_eq', ← addNumbered_placed_iff, ← first]
    constructor
    · rintro ⟨providers, -, placed⟩
      exact ⟨createProviders_placed_iff.mp providers, placed⟩
    · rintro ⟨providers, placed⟩
      exact ⟨createProviders_placed_iff.mpr providers, by simp, placed⟩
  | stash => exact nativeSources_positioned_iff processed
  | loon => exact nativeSources_positioned_iff processed

def plainEnv : SourceEnv where
  isLegacyHttpProxyUri _ := false
  mihomoParser := true
  runScript link := link
  parseNodes _ _ := []
  readImport _ := []
  providerHash _ _ := chars "C580C5"
  proxyProviderInterval := 0
  providerProxyDirect := true
  depth := 1

def firstProvider (origin : Nat) : ProxyProvider :=
  ⟨chars "Provider_C580C5", [], chars "https://h/s", 0, true, 0, origin⟩

def nodeEnv : SourceEnv := { plainEnv with parseNodes := fun _ link => [(link, [])] }

def mixedSources : Sources where
  providers := [firstProvider 0]
  nodes := [⟨chars "ss://x", chars "hk", 1, false, 1⟩, ⟨chars "ss://y", [], 2, false, 2⟩]

theorem sources_positioned_mixed :
    processSources nodeEnv .clash (chars "https://h/s|tag:hk,ss://x|ss://y") = .ok mixedSources ∧ mixedSources.Positioned ∧
      KeepsPositions nodeEnv .clash (chars "https://h/s|tag:hk,ss://x|ss://y") := by
  have processed : processSources nodeEnv .clash (chars "https://h/s|tag:hk,ss://x|ss://y") = .ok mixedSources := by
    decide +kernel
  have positioned : mixedSources.Positioned := ⟨by decide, by decide, by decide⟩
  exact ⟨processed, positioned, (sources_positioned_iff processed).mp positioned⟩

theorem sources_misplaced : ∃ sources, processSources plainEnv .clash (chars "ss://x|https://h/s") = .ok sources ∧
    ¬sources.Positioned := by
  refine ⟨{ providers := [firstProvider 1] }, by decide +kernel, ?_⟩
  intro positioned
  have place := positioned.providers (firstProvider 1) List.mem_cons_self
  exact absurd place (by decide)

end Results

end SubConverter.Handler
