import Mathlib
import SubConverter.Handler.Spelling

set_option autoImplicit false

namespace SubConverter.Handler

def isControl (c : Char) : Bool := c.toNat < 32 || c.toNat == 127

def hasControlCharacter (text : Text) : Bool := text.any isControl

/-- Scheme, host and port of an absolute URL, as the URL interface of libcurl hands them out. -/
structure UrlParts where
  scheme : Text
  host : Text
  port : Option Text
deriving DecidableEq, Repr

def validHttpPort (port : Text) : Bool :=
  port ≠ [] && port.all Char.isDigit && digitsValue port ≤ 65535 && digitsValue port ≠ 0

def hasInvalidHttpHostCharacter (host : Text) : Bool :=
  host.any fun c => isControl c || isSpace c || c ∈ ['/', '?', '#', '@', '[', ']', '%']

-- Only a single dot at the end is dropped.
def normalizeHttpHost (host : Text) : Text :=
  match (toLower host).reverse with
  | '.' :: before :: rest => if before = '.' then toLower host else (before :: rest).reverse
  | _ => toLower host

def stripBrackets (host : Text) : Text :=
  if 2 ≤ host.length ∧ host.head? = some '[' ∧ host.getLast? = some ']' then (host.drop 1).dropLast else host

def parseHttpUrlTarget (parse : Text → Option UrlParts) (url : Text) : Option Text :=
  if url = [] ∨ hasControlCharacter url then none
  else
    match parse url with
    | none => none
    | some parts =>
      let scheme := toLower parts.scheme
      let host := stripBrackets parts.host
      if scheme ≠ chars "http" ∧ scheme ≠ chars "https" then none
      else if host = [] ∨ hasInvalidHttpHostCharacter host then none
      else if parts.port.any fun port => !validHttpPort port then none
      else if normalizeHttpHost host = [] then none
      else some (normalizeHttpHost host)

def withoutUserinfo (authority : Text) : Text := (afterLast '@' authority).getD authority

/-- The parts as builds without the URL interface of libcurl find them. -/
def authorityParts (url : Text) : Option UrlParts := do
  let (scheme, rest) ← cutAt (chars "://") url
  if scheme = [] then none
  else
    match withoutUserinfo (rest.takeWhile fun c => c ∉ ['/', '?', '#']) with
    | [] => none
    | '[' :: inside => do
      let (host, after) ← cutAt [']'] inside
      match after with
      | [] => if host = [] then none else some ⟨scheme, host, none⟩
      | ':' :: port => if host = [] then none else some ⟨scheme, host, some port⟩
      | _ => none
    | authority =>
      match cutAt [':'] authority with
      | none => some ⟨scheme, authority, none⟩
      | some (host, port) => if ':' ∈ port then none else some ⟨scheme, host, some port⟩

/-- What the gate asks of the outside: the URL parser and the name resolver, whose answer is empty when it has none. -/
structure Outside where
  parse : Text → Option UrlParts
  hostnameToIPAddr : Text → Text

variable (outside : Outside)

def resolvesPrivate (host : Text) : Bool :=
  let resolved := outside.hostnameToIPAddr host
  resolved ≠ [] && isBlockedIpAddress resolved true

def isPrivateHost (host : Text) : Bool :=
  classifyLoopbackHost host ≠ .none || isBlockedHostname host || isBlockedIpAddress host false

def isFetchUrlAllowed (settings : FetchSettings) (context : FetchContext) (url : Text) : Bool :=
  if !isPublicFetchRestricted settings context then true
  else
    let checked := trimWhitespace url
    if checked = [] ∨ checked ≠ url ∨ hasControlCharacter checked then false
    else
      let lower := toLower checked
      if startsWith lower (chars "data:") then true
      else if !startsWith lower (chars "http://") && !startsWith lower (chars "https://") then false
      else
        match parseHttpUrlTarget outside.parse checked with
        | none => false
        | some host => if isPrivateHost host then false else !resolvesPrivate outside host

section Targets

variable {url host : Text} {parse : Text → Option UrlParts} {parts : UrlParts}

theorem toLower_eq_self {text : Text} : toLower text = text ↔ ∀ c ∈ text, c.toLower = c := by
  rw [toLower, ← List.map_inj_left, List.map_id']

theorem lowerChar_idem (c : Char) : c.toLower.toLower = c.toLower := by
  by_cases upper : c.val ≥ 'A'.val ∧ c.val ≤ 'Z'.val
  · have shifted : c.toLower.val = c.val + ('a'.val - 'A'.val) := by simp only [Char.toLower, dif_pos upper]
    rw [Char.toLower, dif_neg]
    rw [shifted]
    grind
  · have same : c.toLower = c := by simp only [Char.toLower, dif_neg upper]
    rw [same, same]

theorem toLower_toLower (text : Text) : toLower (toLower text) = toLower text := by
  rw [toLower_eq_self]
  intro c there
  obtain ⟨upper, -, rfl⟩ := List.mem_map.mp there
  exact lowerChar_idem upper

theorem toLower_normalizeHttpHost (host : Text) : toLower (normalizeHttpHost host) = normalizeHttpHost host := by
  unfold normalizeHttpHost
  split
  case h_1 before rest ends =>
    split
    · exact toLower_toLower host
    · rw [toLower_eq_self]
      intro c there
      have inside : c ∈ (toLower host).reverse := by
        rw [ends]
        exact List.mem_cons_of_mem _ (List.mem_reverse.mp there)
      exact toLower_eq_self.mp (toLower_toLower host) c (List.mem_reverse.mp inside)
  case h_2 => exact toLower_toLower host

def SchemeLeads (parse : Text → Option UrlParts) : Prop :=
  ∀ url parts, parse url = some parts → ∃ rest, toLower url = toLower parts.scheme ++ ':' :: rest

theorem authorityParts_scheme : SchemeLeads authorityParts := by
  intro url parts read
  simp only [authorityParts, Option.bind_eq_bind, Option.bind_eq_some_iff] at read
  obtain ⟨⟨scheme, rest⟩, cut, read⟩ := read
  have leads : ∃ tail, toLower url = toLower scheme ++ ':' :: tail := by
    refine ⟨['/', '/'] ++ toLower rest, ?_⟩
    rw [eq_of_cutAt cut]
    simp [toLower, chars]
  suffices same : parts.scheme = scheme by rwa [same]
  split at read
  · cases read
  · split at read
    · cases read
    · obtain ⟨⟨host, after⟩, -, read⟩ := Option.bind_eq_some_iff.mp read
      grind
    · grind

theorem parseHttpUrlTarget_spec (parsed : parseHttpUrlTarget parse url = some host) :
    ∃ parts, parse url = some parts ∧ (toLower parts.scheme = chars "http" ∨ toLower parts.scheme = chars "https") ∧
      toLower host = host ∧ url ≠ [] ∧ hasControlCharacter url = false := by
  unfold parseHttpUrlTarget at parsed
  split at parsed
  · cases parsed
  · rename_i visible
    split at parsed
    · cases parsed
    · rename_i parts read
      refine ⟨parts, read, ?_⟩
      grind [toLower_normalizeHttpHost]

end Targets

section Gate

variable {outside : Outside} {settings : FetchSettings} {context : FetchContext} {url host : Text}

def WellFormed (url : Text) : Prop :=
  trimWhitespace url = url ∧
    (startsWith (toLower url) (chars "http://") = true ∨ startsWith (toLower url) (chars "https://") = true)

instance (url : Text) : Decidable (WellFormed url) := by unfold WellFormed; infer_instance

theorem not_data_of_scheme (leads : SchemeLeads outside.parse) (parsed : parseHttpUrlTarget outside.parse url = some host) :
    startsWith (toLower url) (chars "data:") = false := by
  obtain ⟨parts, read, scheme, -⟩ := parseHttpUrlTarget_spec parsed
  obtain ⟨rest, whole⟩ := leads url parts read
  rw [whole]
  rcases scheme with same | same <;> rw [same] <;> rfl

theorem isFetchUrlAllowed_host (restricted : isPublicFetchRestricted settings context = true)
    (leads : SchemeLeads outside.parse) (parsed : parseHttpUrlTarget outside.parse url = some host) :
    isFetchUrlAllowed outside settings context url =
      (decide (WellFormed url) && !isPrivateHost host && !resolvesPrivate outside host) := by
  obtain ⟨-, -, -, -, present, visible⟩ := parseHttpUrlTarget_spec parsed
  have noData := not_data_of_scheme leads parsed
  by_cases trimmed : trimWhitespace url = url
  · simp only [isFetchUrlAllowed, restricted, trimmed, present, visible, noData, parsed, WellFormed]
    grind
  · simp [isFetchUrlAllowed, restricted, trimmed, WellFormed]

end Gate

end SubConverter.Handler
