import SubConverter.Generator.NodeFilter
import SubConverter.Handler.GroupIds

set_option autoImplicit false

namespace SubConverter.Generator.AddNodes

open Handler (startsWith split urlDecode isLink isSupportedSchemeLink isHttpSchemeLink customGroup)
open SubConverter.Utils (Jpcre2)
open SubConverter.Parser (Proxy ProxyType)
open NodeMatch (asWord filterNodes)

section Links

def lastUrlArg (pattern : Text) : Bool → Text → Option Text
  | _, [] => none
  | open', c :: rest =>
    match lastUrlArg pattern (c = '&' || c = '?') rest with
    | some value => some value
    | none => if open' && startsWith (c :: rest) pattern then some (((c :: rest).drop pattern.length).takeWhile (· ≠ '&')) else none

def getUrlArg (url request : Text) : Text := (lastUrlArg (request ++ ['=']) true url).getD []

def surgeInstallConfig : Text := chars "surge:///install-config"

def isSubscription (link : Text) : Bool :=
  if startsWith link surgeInstallConfig then true
  else
    match cutAt (chars "://") link with
    | none => true
    | some (_, rest) =>
      if isHttpSchemeLink link then
        -- With an argument, or with a path longer than a slash.
        '?' ∈ rest || 1 < (rest.dropWhile (· ≠ '/')).length
      else false

inductive ConfType where
  | unknow
  | http
  | socks
  | sub
  | netch
  | file
deriving DecidableEq, Repr

inductive NodeParserMode where
  | legacyOnly
  | mihomoOnly
deriving DecidableEq, Repr

structure NodeParserStats where
  invocations : Nat := 0
  failures : Nat := 0
deriving DecidableEq, Repr

structure ParseSettings where
  authorized : Bool := false
  parserMode : NodeParserMode := .legacyOnly
  forceDirectLink : Bool := false
  excludeRemarks : List Text := []
  includeRemarks : List Text := []

/-- What one call gets from the scripts, the files, the network and the parsers; nothing where a script or a parser throws. -/
structure Outcomes (ρ : Type) where
  runScript : List Text → Option Text
  fileExist : Text → Bool
  fileGet : Text → Text
  -- The body with the headers of the response.
  webGet : Text → Text × Text
  parseSubscription : Text → Option (List (Proxy ρ))
  explodeConfContent : Text → List (Proxy ρ)
  explodeMierusNodes : Text → List (Proxy ρ)
  explode : Text → Proxy ρ
  getSubInfoFromSSD : Text → Option Text
  getSubInfoFromHeader : Text → Option Text
  getSubInfoFromNodes : List (Proxy ρ) → Option Text

/-- The outcomes belong to a place: a call that `addNodes` makes of itself has the place of its part behind its own. -/
structure NodeEnv (ρ : Type) where
  settings : ParseSettings
  engine : Jpcre2
  mihomoParser : Bool
  isLegacyHttpProxyUri : Text → Bool
  outcomes : List Nat → Outcomes ρ

structure NodeState (ρ : Type) where
  allNodes : List (Proxy ρ) := []
  subInfo : Text := []
  parserStats : Option NodeParserStats := none
deriving DecidableEq, Repr

variable {ρ : Type}

def NodeState.recordParserInvocation (s : NodeState ρ) : NodeState ρ :=
  { s with parserStats := s.parserStats.map fun stats => { stats with invocations := stats.invocations + 1 } }

def NodeState.recordParserFailure (s : NodeState ρ) : NodeState ρ :=
  { s with parserStats := s.parserStats.map fun stats => { stats with failures := stats.failures + 1 } }

variable (env : NodeEnv ρ) (place : List Nat)

def NodeEnv.useMihomoParser : Bool := env.settings.parserMode = .mihomoOnly

def isMihomoScheme (link : Text) : Bool := env.useMihomoParser && isSupportedSchemeLink link

def scriptedLink (link : Text) : Text :=
  let link := link.filter (· ≠ '\x22')
  if env.settings.authorized && startsWith link (chars "script:") then
    match split (link.drop 7) ',' with
    | [] => link
    | args => ((env.outcomes place).runScript args).getD link
  else link

def linkType (link : Text) : ConfType :=
  if env.settings.forceDirectLink then .http
  else if !env.useMihomoParser && env.isLegacyHttpProxyUri link then .http
  else if startsWith link (chars "https://t.me/socks") || startsWith link (chars "tg://socks") then .socks
  else if startsWith link (chars "https://t.me/http") || startsWith link (chars "tg://http") then .http
  else if isLink link || startsWith link surgeInstallConfig || isMihomoScheme env link then .sub
  else if startsWith link (chars "Netch://") then .netch
  else if (env.outcomes place).fileExist link then .file
  else .unknow

end Links

section Sources

variable {ρ : Type} (env : NodeEnv ρ) (groupID : Int) (place : List Nat)

def labelled (customGroup : Text) (node : Proxy ρ) : Proxy ρ :=
  { node with groupId := asWord groupID, group := if customGroup = [] then node.group else customGroup }

-- The result of a call, with the state that it leaves behind.
def parsedInto (customGroup : Text) (nodes : List (Proxy ρ)) (s : NodeState ρ) : Int × NodeState ρ :=
  (0, { s with allNodes := s.allNodes ++ nodes.map (labelled groupID customGroup) })

def filtered (nodes : List (Proxy ρ)) : List (Proxy ρ) :=
  filterNodes env.engine nodes env.settings.excludeRemarks env.settings.includeRemarks groupID

/-- The nodes that the parser of Mihomo finds in a text; nothing where it is missing, throws or finds none. -/
def mihomoNodes (text : Text) : Option (List (Proxy ρ)) :=
  if !env.mihomoParser then none
  else
    match (env.outcomes place).parseSubscription text with
    | none | some [] => none
    | some nodes => some nodes

def legacyNodes (text : Text) : Option (List (Proxy ρ)) :=
  match (env.outcomes place).explodeConfContent text with
  | [] => none
  | nodes => some nodes

def subscriptionText (link : Text) : Text × Text :=
  if isSubscription link then
    (env.outcomes place).webGet (if startsWith link surgeInstallConfig then urlDecode (getUrlArg link (chars "url")) else link)
  else (link, [])

def addSubscription (customGroup link : Text) (s : NodeState ρ) : Int × NodeState ρ :=
  let outcomes := env.outcomes place
  let (strSub, extraHeaders) := subscriptionText env place link
  if strSub = [] then (-1, s)
  else
    let s := s.recordParserInvocation
    match if env.useMihomoParser then mihomoNodes env place strSub else legacyNodes env place strSub with
    | none => (-1, s.recordParserFailure)
    | some nodes =>
      let subInfo :=
        if startsWith strSub (chars "ssd://") then (outcomes.getSubInfoFromSSD strSub).getD s.subInfo
        else (outcomes.getSubInfoFromHeader extraHeaders).getD ((outcomes.getSubInfoFromNodes nodes).getD s.subInfo)
      parsedInto groupID customGroup (filtered env groupID nodes) { s with subInfo := subInfo }

def addLocal (customGroup link : Text) (s : NodeState ρ) : Int × NodeState ρ :=
  let outcomes := env.outcomes place
  if !env.settings.authorized then (-1, s)
  else
    let s := s.recordParserInvocation
    match legacyNodes env place (outcomes.fileGet link) with
    | none => (-1, s.recordParserFailure)
    | some nodes =>
      parsedInto groupID customGroup (filtered env groupID nodes) { s with subInfo := (outcomes.getSubInfoFromNodes nodes).getD s.subInfo }

-- The nodes of one link are not filtered.
def addDirect (customGroup link : Text) (s : NodeState ρ) : Int × NodeState ρ :=
  let outcomes := env.outcomes place
  let s := s.recordParserInvocation
  if env.useMihomoParser then
    match mihomoNodes env place link with
    | none => (-1, s.recordParserFailure)
    | some nodes => parsedInto groupID customGroup nodes s
  else if startsWith link (chars "mierus://") then
    match outcomes.explodeMierusNodes link with
    | [] => (-1, s.recordParserFailure)
    | nodes => parsedInto groupID customGroup nodes s
  else
    let node := outcomes.explode link
    if node.type = .unknown then (-1, s.recordParserFailure) else parsedInto groupID customGroup [node] s

def addSource (customGroup link : Text) (s : NodeState ρ) : Int × NodeState ρ :=
  match linkType env place link with
  | .sub => addSubscription env groupID place customGroup link s
  | .file => addLocal env groupID place customGroup link s
  | .http | .socks | .netch | .unknow => addDirect env groupID place customGroup link s

def addParts (add : Nat → Text → NodeState ρ → Option (Int × NodeState ρ)) : List (Text × Nat) → NodeState ρ → Option (NodeState ρ)
  | [], s => some s
  | (part, index) :: rest, s =>
    if part = [] then addParts add rest s
    else
      match add index part s with
      | none => none
      | some (_, next) => addParts add rest next

variable [Inhabited ρ]

def nullNode : Proxy ρ := { others := default }

/-- Nothing where the calls go deeper than the given depth. -/
def addNodes : Nat → List Nat → Text → NodeState ρ → Option (Int × NodeState ρ)
  | 0, _, _, _ => none
  | depth + 1, place, link, s =>
    let (customGroup, link) := customGroup (scriptedLink env place link)
    let addJoined := (addParts (fun index part => addNodes depth (place ++ [index]) part) (split link '|').zipIdx s).map (0, ·)
    if link = chars "nullnode" then some (0, { s with allNodes := s.allNodes ++ [nullNode] })
    else if '|' ∈ link ∧ (isLink link ∨ isMihomoScheme env link) then addJoined
    else if linkType env place link = .sub ∧ '|' ∈ link then addJoined
    else some (addSource env groupID place customGroup link s)

end Sources

section Labels

variable {ρ : Type} (env : NodeEnv ρ) (groupID : Int)

def joined (place : List Nat) (link : Text) : Bool :=
  '|' ∈ link && (isLink link || isMihomoScheme env link || linkType env place link = .sub)

def sourceNodes (place : List Nat) (link : Text) : List (Proxy ρ) :=
  match linkType env place link with
  | .sub =>
    let text := (subscriptionText env place link).1
    if text = [] then []
    else filtered env groupID ((if env.useMihomoParser then mihomoNodes env place text else legacyNodes env place text).getD [])
  | .file =>
    if env.settings.authorized then filtered env groupID ((legacyNodes env place ((env.outcomes place).fileGet link)).getD []) else []
  | .http | .socks | .netch | .unknow =>
    if env.useMihomoParser then (mihomoNodes env place link).getD []
    else if startsWith link (chars "mierus://") then (env.outcomes place).explodeMierusNodes link
    else [(env.outcomes place).explode link].filter fun node => node.type ≠ .unknown

variable {env groupID} {place : List Nat} {custom group link : Text} {s : NodeState ρ}

structure Adds (groupID : Int) (custom : Text) (nodes : List (Proxy ρ)) (s : NodeState ρ) (result : Int × NodeState ρ) : Prop where
  allNodes : result.2.allNodes = s.allNodes ++ nodes.map (labelled groupID custom)
  failed : result.1 = -1 → nodes = []

theorem adds_parsedInto (nodes : List (Proxy ρ)) {s' : NodeState ρ} (same : s'.allNodes = s.allNodes) :
    Adds groupID custom nodes s (parsedInto groupID custom nodes s') :=
  ⟨by rw [parsedInto, same], fun failed => absurd failed (by decide : (0 : Int) ≠ -1)⟩

theorem adds_failed {s' : NodeState ρ} (same : s'.allNodes = s.allNodes) : Adds groupID custom [] s (-1, s') :=
  ⟨by simpa using same, fun _ => rfl⟩

theorem adds_addSubscription (kind : linkType env place link = .sub) :
    Adds groupID custom (sourceNodes env groupID place link) s (addSubscription env groupID place custom link s) := by
  rw [sourceNodes, kind, addSubscription]
  obtain ⟨text, headers⟩ := subscriptionText env place link
  dsimp only
  by_cases empty : text = []
  · rw [if_pos empty, if_pos empty]
    exact adds_failed rfl
  rw [if_neg empty, if_neg empty]
  cases (if env.useMihomoParser then mihomoNodes env place text else legacyNodes env place text) with
  | none => exact adds_failed rfl
  | some nodes => exact adds_parsedInto _ rfl

theorem adds_addLocal (kind : linkType env place link = .file) :
    Adds groupID custom (sourceNodes env groupID place link) s (addLocal env groupID place custom link s) := by
  rw [sourceNodes, kind, addLocal]
  cases authorized : env.settings.authorized with
  | false => exact adds_failed rfl
  | true =>
    cases legacyNodes env place ((env.outcomes place).fileGet link) with
    | none => exact adds_failed rfl
    | some nodes => exact adds_parsedInto _ rfl

theorem adds_addDirect (other : linkType env place link ≠ .sub) (absent : linkType env place link ≠ .file) :
    Adds groupID custom (sourceNodes env groupID place link) s (addDirect env groupID place custom link s) := by
  have nodes : sourceNodes env groupID place link =
      if env.useMihomoParser then (mihomoNodes env place link).getD []
      else if startsWith link (chars "mierus://") then (env.outcomes place).explodeMierusNodes link
      else [(env.outcomes place).explode link].filter fun node => node.type ≠ .unknown := by
    unfold sourceNodes
    split
    next kind => exact absurd kind other
    next kind => exact absurd kind absent
    all_goals rfl
  rw [nodes, addDirect]
  dsimp only
  split
  next =>
    cases mihomoNodes env place link with
    | none => exact adds_failed rfl
    | some nodes => exact adds_parsedInto _ rfl
  split
  next =>
    cases (env.outcomes place).explodeMierusNodes link with
    | nil => exact adds_failed rfl
    | cons node rest => exact adds_parsedInto _ rfl
  next =>
    by_cases unknown : ((env.outcomes place).explode link).type = .unknown
    · rw [if_pos unknown, List.filter_cons_of_neg (by simp [unknown])]
      exact adds_failed rfl
    · rw [if_neg unknown, List.filter_cons_of_pos (by simp [unknown])]
      exact adds_parsedInto _ rfl

theorem adds_addSource (custom link : Text) (s : NodeState ρ) :
    Adds groupID custom (sourceNodes env groupID place link) s (addSource env groupID place custom link s) := by
  unfold addSource
  split
  next kind => exact adds_addSubscription kind
  next kind => exact adds_addLocal kind
  all_goals
    next kind => exact adds_addDirect (by simp [kind]) (by simp [kind])

theorem addParts_returns {add : Nat → Text → NodeState ρ → Option (Int × NodeState ρ)} {parts : List (Text × Nat)}
    (each : ∀ part ∈ parts, ∀ s, ∃ result, add part.2 part.1 s = some result) : ∃ next, addParts add parts s = some next := by
  induction parts generalizing s with
  | nil => exact ⟨s, rfl⟩
  | cons part rest ih =>
    obtain ⟨part, index⟩ := part
    obtain ⟨here, later⟩ := List.forall_mem_cons.mp each
    rw [addParts]
    by_cases empty : part = []
    · rw [if_pos empty]
      exact ih later
    · obtain ⟨result, added⟩ := here s
      dsimp only at added
      rw [if_neg empty, added]
      exact ih later

end Labels

section Runs

variable {ρ : Type} [Inhabited ρ] (env : NodeEnv ρ) (groupID : Int)

def Brings (group : Text) : Nat → List Nat → Text → Prop
  | 0, _, _ => True
  | depth + 1, place, link =>
    let (custom, link) := customGroup (scriptedLink env place link)
    if link = chars "nullnode" then True
    else if joined env place link then ∀ part ∈ (split link '|').zipIdx, part.1 ≠ [] → Brings group depth (place ++ [part.2]) part.1
    else ∀ node ∈ sourceNodes env groupID place link,
      labelled groupID custom node = nullNode ∨ (labelled groupID custom node).group = group

variable {env groupID} {place : List Nat} {group link : Text} {s middle after : NodeState ρ} {depth : Nat} {code : Int}

def Grows (groupID : Int) (group : Text) (s after : NodeState ρ) (grouped : Prop) : Prop :=
  ∃ appended, after.allNodes = s.allNodes ++ appended ∧ (∀ node ∈ appended, node = nullNode ∨ node.groupId = asWord groupID) ∧
    ((∀ node ∈ appended, node = nullNode ∨ node.group = group) ↔ grouped)

theorem Grows.none : Grows groupID group s s True :=
  ⟨[], (List.append_nil _).symm, fun _ none => absurd none List.not_mem_nil, iff_true_intro fun _ none => absurd none List.not_mem_nil⟩

theorem Grows.trans {first second : Prop} (before : Grows groupID group s middle first) (behind : Grows groupID group middle after second) :
    Grows groupID group s after (first ∧ second) := by
  obtain ⟨early, here, ids, groups⟩ := before
  obtain ⟨late, there, lateIds, lateGroups⟩ := behind
  refine ⟨early ++ late, by rw [there, here, List.append_assoc], ?_, ?_⟩
  · exact List.forall_mem_append.mpr ⟨ids, lateIds⟩
  · rw [List.forall_mem_append, groups, lateGroups]

theorem Grows.congr {first second : Prop} (grows : Grows groupID group s after first) (same : first ↔ second) :
    Grows groupID group s after second := by
  obtain ⟨appended, here, ids, groups⟩ := grows
  exact ⟨appended, here, ids, groups.trans same⟩

theorem addParts_grows {add : Nat → Text → NodeState ρ → Option (Int × NodeState ρ)} {grouped : Nat → Text → Prop}
    (each : ∀ index part s code after, add index part s = some (code, after) → Grows groupID group s after (grouped index part))
    {parts : List (Text × Nat)} (ran : addParts add parts s = some after) :
    Grows groupID group s after (∀ part ∈ parts, part.1 ≠ [] → grouped part.2 part.1) := by
  induction parts generalizing s with
  | nil =>
    obtain rfl := Option.some.inj ran
    exact Grows.none.congr (by simp)
  | cons part rest ih =>
    obtain ⟨part, index⟩ := part
    rw [addParts] at ran
    by_cases empty : part = []
    · rw [if_pos empty] at ran
      exact (ih ran).congr (by simp [empty])
    · rw [if_neg empty] at ran
      split at ran
      next => cases ran
      next code next added =>
        exact ((each index part s code next added).trans (ih ran)).congr (by simp [empty])

theorem grows_of_adds {custom : Text} {nodes : List (Proxy ρ)} {result : Int × NodeState ρ} (adds : Adds groupID custom nodes s result) :
    Grows groupID group s result.2
      (∀ node ∈ nodes, labelled groupID custom node = nullNode ∨ (labelled groupID custom node).group = group) := by
  refine ⟨_, adds.allNodes, ?_, List.forall_mem_map⟩
  exact List.forall_mem_map.mpr fun node _ => .inr rfl

theorem addNodes_joined (depth : Nat) (place : List Nat) (link : Text) (s : NodeState ρ) :
    addNodes env groupID (depth + 1) place link s =
      let (custom, link) := customGroup (scriptedLink env place link)
      if link = chars "nullnode" then some (0, { s with allNodes := s.allNodes ++ [nullNode] })
      else if joined env place link then
        (addParts (fun index part => addNodes env groupID depth (place ++ [index]) part) (split link '|').zipIdx s).map (0, ·)
      else some (addSource env groupID place custom link s) := by
  rw [addNodes]
  obtain ⟨custom, link⟩ := customGroup (scriptedLink env place link)
  dsimp only
  by_cases null : link = chars "nullnode"
  · rw [if_pos null, if_pos null]
  rw [if_neg null, if_neg null]
  have several : joined env place link = true ↔
      ('|' ∈ link ∧ (isLink link ∨ isMihomoScheme env link)) ∨ (linkType env place link = .sub ∧ '|' ∈ link) := by
    simp only [joined, Bool.and_eq_true, Bool.or_eq_true, decide_eq_true_eq]
    tauto
  by_cases first : '|' ∈ link ∧ (isLink link ∨ isMihomoScheme env link)
  · rw [if_pos first, if_pos (several.mpr (.inl first))]
  rw [if_neg first]
  by_cases second : linkType env place link = .sub ∧ '|' ∈ link
  · rw [if_pos second, if_pos (several.mpr (.inr second))]
  · rw [if_neg second, if_neg fun both => (several.mp both).elim first second]

theorem addNodes_grows (ran : addNodes env groupID depth place link s = some (code, after)) :
    Grows groupID group s after (Brings env groupID group depth place link) ∧ (code = -1 → after.allNodes = s.allNodes) := by
  induction depth generalizing place link s code after with
  | zero => cases ran
  | succ depth ih =>
    rw [addNodes_joined] at ran
    rw [Brings]
    generalize customGroup (scriptedLink env place link) = opened at ran ⊢
    obtain ⟨custom, link⟩ := opened
    dsimp only at ran ⊢
    by_cases null : link = chars "nullnode"
    · rw [if_pos null] at ran ⊢
      obtain ⟨rfl, rfl⟩ := Prod.mk.inj (Option.some.inj ran)
      refine ⟨⟨[nullNode], rfl, ?_, ?_⟩, fun failed => absurd failed (by decide)⟩
      · simp
      · simp
    rw [if_neg null] at ran ⊢
    by_cases several : joined env place link = true
    · rw [if_pos several] at ran ⊢
      obtain ⟨next, added, same⟩ := Option.map_eq_some_iff.mp ran
      obtain ⟨rfl, rfl⟩ := Prod.mk.inj same
      refine ⟨?_, fun failed => absurd failed (by decide)⟩
      have each : ∀ index part s code after, addNodes env groupID depth (place ++ [index]) part s = some (code, after) →
          Grows groupID group s after (Brings env groupID group depth (place ++ [index]) part) :=
        fun _ _ _ _ _ called => (ih called).1
      exact addParts_grows each added
    · rw [if_neg several] at ran ⊢
      have adds : Adds groupID custom (sourceNodes env groupID place link) s (code, after) :=
        Option.some.inj ran ▸ adds_addSource custom link s
      refine ⟨grows_of_adds adds, fun failed => ?_⟩
      have none := adds.allNodes
      rwa [adds.failed failed, List.map_nil, List.append_nil] at none

theorem not_mem_customGroup {mark : Char} (absent : mark ∉ link) : mark ∉ (customGroup link).2 := by
  unfold customGroup
  split
  next => exact absent
  next rest found =>
    rw [Handler.dropPrefix?, Option.ite_none_right_eq_some] at found
    have plain : mark ∉ rest := fun there => absent (List.mem_of_mem_drop (Option.some.inj found.2 ▸ there))
    cases cut : cutAt [','] rest with
    | none => exact absent
    | some parts =>
      intro there
      apply plain
      rw [eq_of_cutAt cut]
      exact List.mem_append_right _ there

theorem addNodes_single (unauthorized : env.settings.authorized = false) (plain : '|' ∉ link) :
    ∃ result, addNodes env groupID (depth + 1) place link s = some result := by
  have unscripted : scriptedLink env place link = link.filter (· ≠ '\x22') := by simp [scriptedLink, unauthorized]
  have plainLink : '|' ∉ (customGroup (scriptedLink env place link)).2 := by
    apply not_mem_customGroup
    rw [unscripted]
    exact fun there => plain (List.mem_of_mem_filter there)
  rw [addNodes_joined]
  generalize customGroup (scriptedLink env place link) = opened at plainLink ⊢
  obtain ⟨custom, link⟩ := opened
  have alone : ¬joined env place link = true := by simp [joined, plainLink]
  dsimp only
  rw [if_neg alone]
  split
  · exact ⟨_, rfl⟩
  · exact ⟨_, rfl⟩

theorem addNodes_returns (unauthorized : env.settings.authorized = false) (depth : Nat) (place : List Nat) (link : Text) (s : NodeState ρ) :
    ∃ result, addNodes env groupID (depth + 2) place link s = some result := by
  rw [addNodes_joined]
  obtain ⟨custom, link⟩ := customGroup (scriptedLink env place link)
  have each : ∀ part ∈ (split link '|').zipIdx, ∀ s, ∃ result,
      addNodes env groupID (depth + 1) (place ++ [part.2]) part.1 s = some result := by
    intro part there s
    have inside := Handler.mem_splitOn_of_mem_split (List.fst_mem_of_mem_zipIdx there)
    exact addNodes_single unauthorized (not_mem_of_mem_splitOn inside)
  obtain ⟨next, added⟩ := @addParts_returns ρ s (fun index part => addNodes env groupID (depth + 1) (place ++ [index]) part) _ each
  dsimp only
  rw [added]
  split
  · exact ⟨_, rfl⟩
  split
  · exact ⟨_, rfl⟩
  · exact ⟨_, rfl⟩

def AddsLabelled (groupID : Int) (tag : Text) (s : NodeState ρ) (code : Int) (after : NodeState ρ) : Prop :=
  ∃ appended, after.allNodes = s.allNodes ++ appended ∧ (code = -1 → appended = []) ∧
    ∀ node ∈ appended, node = nullNode ∨ (node.groupId = asWord groupID ∧ (tag ≠ [] → node.group = tag))

variable (env groupID) in
def TagKept (depth : Nat) (place : List Nat) (link : Text) : Prop :=
  let (tag, link) := customGroup (scriptedLink env place link)
  tag = [] ∨ joined env place link = false ∨
    ∀ part ∈ (split link '|').zipIdx, part.1 ≠ [] → Brings env groupID tag depth (place ++ [part.2]) part.1

theorem brings_iff {tag rest : Text} (opened : customGroup (scriptedLink env place link) = (tag, rest)) (given : tag ≠ []) :
    Brings env groupID tag (depth + 1) place link ↔ TagKept env groupID depth place link := by
  rw [Brings, TagKept, opened]
  dsimp only
  by_cases null : rest = chars "nullnode"
  · have alone : joined env place rest = false := by
      rw [joined, null]
      rfl
    simp only [if_pos null, alone, true_or, or_true]
  · rw [if_neg null]
    cases several : joined env place rest with
    | true => simp [given]
    | false => simp [labelled, given]

theorem addsLabelled_iff {tag : Text} {appended : List (Proxy ρ)} (whole : after.allNodes = s.allNodes ++ appended)
    (ids : ∀ node ∈ appended, node = nullNode ∨ node.groupId = asWord groupID) (failed : code = -1 → appended = []) :
    AddsLabelled groupID tag s code after ↔ tag = [] ∨ ∀ node ∈ appended, node = nullNode ∨ node.group = tag := by
  constructor
  · rintro ⟨others, same, -, labels⟩
    obtain rfl := List.append_cancel_left (whole.symm.trans same)
    by_cases given : tag = []
    · exact .inl given
    · exact .inr fun node there => (labels node there).imp_right fun both => both.2 given
  · intro kept
    refine ⟨appended, whole, failed, fun node there => ?_⟩
    rcases ids node there with null | ofGroup
    · exact .inl null
    · rcases kept with none | groups
      · exact .inr ⟨ofGroup, fun given => absurd none given⟩
      · exact (groups node there).imp_right fun same => ⟨ofGroup, fun _ => same⟩

theorem addNodes_labels_iff (env : NodeEnv ρ) (groupID : Int) (depth : Nat) (place : List Nat) (link : Text) (s : NodeState ρ) {code : Int}
    {after : NodeState ρ} (ran : addNodes env groupID (depth + 1) place link s = some (code, after)) :
    AddsLabelled groupID (customGroup (scriptedLink env place link)).1 s code after ↔ TagKept env groupID depth place link := by
  cases opened : customGroup (scriptedLink env place link) with
  | mk tag rest =>
    have grown : Grows groupID tag s after (Brings env groupID tag (depth + 1) place link) ∧ (code = -1 → after.allNodes = s.allNodes) :=
      addNodes_grows ran
    obtain ⟨⟨appended, whole, ids, groups⟩, failed⟩ := grown
    have nothing : code = -1 → appended = [] := fun wrong => by simpa [failed wrong] using whole
    rw [addsLabelled_iff whole ids nothing, groups]
    by_cases given : tag = []
    · simp [given, TagKept, opened]
    · rw [brings_iff opened given]
      simp [given]

-- No filter is given, so no expression is asked for.
def noExpressions : Jpcre2 where
  Regex := Unit
  compile _ _ _ := none
  count _ _ _ := 0
  substrings _ _ _ := []
  replaced _ subject _ _ := subject

def oneNodeEach : NodeEnv Unit where
  settings := {}
  engine := noExpressions
  mihomoParser := false
  isLegacyHttpProxyUri _ := false
  outcomes _ :=
    { runScript := fun _ => none
      fileExist := fun _ => false
      fileGet := fun _ => []
      webGet := fun url => (url, [])
      parseSubscription := fun _ => none
      explodeConfContent := fun text => [{ type := .shadowsocks, remark := text, others := () }]
      explodeMierusNodes := fun _ => []
      explode := fun _ => { others := () }
      getSubInfoFromSSD := fun _ => none
      getSubInfoFromHeader := fun _ => none
      getSubInfoFromNodes := fun _ => none }

theorem addNodes_returns_joined : ∃ result, addNodes oneNodeEach 3 2 [] (chars "http://a.test/s|http://b.test/s") {} = some result :=
  addNodes_returns rfl 0 [] _ {}

theorem addNodes_labels_iff_single : ∃ after, addNodes oneNodeEach 3 1 [] (chars "tag:G,http://a.test/s") {} = some (0, after) ∧
    AddsLabelled 3 (chars "G") {} 0 after :=
  ⟨_, rfl, (addNodes_labels_iff oneNodeEach 3 0 [] (chars "tag:G,http://a.test/s") {} rfl).mpr (.inr (.inl (by decide)))⟩

-- The node of a subscription with the group id of the call and without a group.
def untaggedNode (url : String) : Proxy Unit := { type := .shadowsocks, groupId := asWord 3, remark := chars url, others := () }

def untaggedState : NodeState Unit := { allNodes := [untaggedNode "http://a.test/s", untaggedNode "http://b.test/s"] }

theorem joined_links_untagged :
    addNodes oneNodeEach 3 2 [] (chars "tag:G,http://a.test/s|http://b.test/s") {} = some (0, untaggedState) ∧
      ¬AddsLabelled 3 (chars "G") {} 0 untaggedState := by
  refine ⟨by decide, ?_⟩
  rintro ⟨appended, whole, -, labels⟩
  have same : untaggedState.allNodes = appended := whole
  have first : untaggedNode "http://a.test/s" ∈ appended := by
    rw [← same]
    exact List.mem_cons_self
  rcases labels _ first with null | ⟨-, grouped⟩
  · exact absurd (congrArg Proxy.type null) (by decide)
  · exact absurd (grouped (by decide)) (by decide)

end Runs

end SubConverter.Generator.AddNodes
