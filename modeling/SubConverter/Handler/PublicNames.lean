import SubConverter.Lib.AsciiCase
import SubConverter.Handler.PrivateLiterals

set_option autoImplicit false

namespace SubConverter.Handler

section Hosts

variable {url host : Text} {parse : Text → Option UrlParts} {c : Char}

theorem isSpace_toLower : isSpace c.toLower = isSpace c := by
  cases upper : c.isUpper with
  | false => rw [toLower_of_not_isUpper upper]
  | true =>
    obtain ⟨shifted, low, high⟩ := toLower_of_isUpper upper
    have apart : ∀ d : Char, 65 ≤ d.toNat → isSpace d = false := by
      intro d letter
      by_contra space
      simp only [isSpace, decide_eq_true_eq, Bool.not_eq_false, List.mem_cons, List.not_mem_nil, or_false] at space
      rcases space with rfl | rfl | rfl | rfl | rfl | rfl <;> revert letter <;> decide
    rw [apart c low, apart c.toLower (by omega)]

theorem isControl_toLower : isControl c.toLower = isControl c := by
  cases upper : c.isUpper with
  | false => rw [toLower_of_not_isUpper upper]
  | true =>
    obtain ⟨shifted, low, high⟩ := toLower_of_isUpper upper
    have apart : isControl c.toLower = false := by
      simp only [isControl, Bool.or_eq_false_iff, decide_eq_false_iff_not, beq_eq_false_iff_ne]
      omega
    have apart' : isControl c = false := by
      simp only [isControl, Bool.or_eq_false_iff, decide_eq_false_iff_not, beq_eq_false_iff_ne]
      omega
    rw [apart, apart']

theorem mem_of_mem_normalizeHttpHost (there : c ∈ normalizeHttpHost host) : c ∈ toLower host := by
  unfold normalizeHttpHost at there
  split at there
  next before rest ends =>
    split at there
    · exact there
    · have inside : c ∈ (toLower host).reverse := by
        rw [ends]
        exact List.mem_cons_of_mem _ (List.mem_reverse.mp there)
      exact List.mem_reverse.mp inside
  next => exact there

theorem parseHttpUrlTarget_visible (parsed : parseHttpUrlTarget parse url = some host) :
    ∀ c ∈ host, isSpace c = false ∧ isControl c = false := by
  unfold parseHttpUrlTarget at parsed
  split at parsed
  next => cases parsed
  next =>
    split at parsed
    next => cases parsed
    next parts _ =>
      have plain : hasInvalidHttpHostCharacter (stripBrackets parts.host) = false ∧ normalizeHttpHost (stripBrackets parts.host) = host := by
        grind
      obtain ⟨valid, rfl⟩ := plain
      intro c there
      obtain ⟨d, inside, rfl⟩ := List.mem_map.mp (mem_of_mem_normalizeHttpHost there)
      simp only [hasInvalidHttpHostCharacter, List.any_eq_false, Bool.or_eq_true, not_or, Bool.not_eq_true] at valid
      rw [isSpace_toLower, isControl_toLower]
      exact ⟨(valid d inside).1.2, (valid d inside).1.1⟩

end Hosts

section Names

variable {host : Text}

structure DnsName (host : Text) : Prop where
  colon : ':' ∉ host
  literal : literalOf host = none

theorem parseAddress_name (name : DnsName host) (plain : ∀ c ∈ host, isSpace c = false ∧ isControl c = false) :
    parseAddress host = none := by
  have trimmed : trimWhitespace host = host := trimWhitespace_of_none fun c there => (plain c there).1
  have whole : cString host = host := by
    rw [cString, List.takeWhile_eq_self_iff]
    intro c there
    have differs : c ≠ '\x00' := by
      rintro rfl
      exact absurd (plain _ there).2 (by decide)
    simpa using differs
  have unread := name.literal
  unfold literalOf at unread
  split at unread
  next => cases unread
  next dotted =>
    rw [Option.map_eq_none_iff] at unread
    simp only [parseAddress, trimmed, whole, dotted, unread]
    split <;> rfl

theorem isPrivateHost_name (name : DnsName host) (plain : ∀ c ∈ host, isSpace c = false ∧ isControl c = false)
    (lower : toLower host = host) (free : isBlockedHostname host = false) :
    isPrivateHost host = (startsWith host ['f', 'c'] || startsWith host ['f', 'd'] || isBlockedIpv4 host) := by
  have unreserved := free
  simp only [isBlockedHostname, Bool.or_eq_false_iff] at unreserved
  have loopback : classifyLoopbackHost host = .none := by
    rw [classifyLoopbackHost, unreserved.1.1.1.1, unreserved.1.1.1.2, parseAddress_name name plain]
    rfl
  have trimmed : trimWhitespace host = host := trimWhitespace_of_none fun c there => (plain c there).1
  have apart : ∀ text, ':' ∈ text → host ≠ text ∧ startsWith host text = false := by
    intro text inside
    constructor
    · rintro rfl
      exact name.colon inside
    · by_contra starts
      exact name.colon (mem_of_startsWith (Bool.not_eq_false _ ▸ starts) inside)
  have blocked : isBlockedIpv6 host = (startsWith host ['f', 'c'] || startsWith host ['f', 'd']) := by
    simp only [isBlockedIpv6, trimmed, lower, (apart (chars "::") (by decide)).1, (apart (chars "::1") (by decide)).1,
      (apart (chars "fe80:") (by decide)).2, (apart (chars "fe80::") (by decide)).2, afterLast_eq_none name.colon]
    simp
  simp only [isPrivateHost, loopback, free, isBlockedIpAddress, blocked]
  simp [Bool.or_comm]

end Names

section Answers

variable {resolved : Text} {literal : Literal}

theorem isBlockedIpv4_of_isFakeIpv4 (fake : isFakeIpv4 resolved = true) : isBlockedIpv4 resolved = true := by
  unfold isFakeIpv4 at fake
  unfold isBlockedIpv4
  split at fake
  next => cases fake
  next ip parsed => simp [blockedNetworks, fake]

theorem answer_spec (read : literalOf resolved = some literal) (isPublic : ¬literal.Private) :
    classifyLoopbackHost resolved = .none ∧ isBlockedHostname resolved = false ∧ isBlockedIpv4 resolved = false := by
  unfold literalOf at read
  split at read
  next quad dotted =>
    cases read
    have letters := literalLetters_ipv4 dotted
    refine ⟨?_, letters.no_reserved_name.1, ?_⟩
    · by_contra loopback
      exact isPublic (.inr (.inr (.inr (.inl ((classifyLoopbackHost_ipv4 dotted).mp loopback)))))
    · by_contra blocked
      exact isPublic ((isBlockedIpv4_iff dotted).mp (Bool.not_eq_false _ ▸ blocked))
  next undotted =>
    obtain ⟨groups, grouped, rfl⟩ := Option.map_eq_some_iff.mp read
    have letters := literalLetters_ipv6 grouped
    refine ⟨?_, letters.no_reserved_name.1, ?_⟩
    · by_contra loopback
      rcases (classifyLoopbackHost_ipv6 undotted grouped).mp loopback with ⟨quad, mapped, same⟩ | same
      · exact isPublic (.inl ⟨quad, mapped, .inr (.inr (.inr (.inl same)))⟩)
      · exact isPublic (.inr (.inr (.inl same)))
    · obtain ⟨first, rest, whole, -⟩ := (spelled_of_inetPton6 grouped).first
      exact isBlockedIpv4_colon (by simp [whole])

theorem isBlockedIpAddress_answer (lower : toLower resolved = resolved) (read : literalOf resolved = some literal)
    (isPublic : ¬literal.Private) : isBlockedIpAddress resolved true = true ↔ Misread resolved literal := by
  obtain ⟨loopback, free, unblocked⟩ := answer_spec read isPublic
  have real : isFakeIpv4 resolved = false := by
    by_contra fake
    rw [isBlockedIpv4_of_isFakeIpv4 (Bool.not_eq_false _ ▸ fake)] at unblocked
    cases unblocked
  have same : isPrivateHost resolved = isBlockedIpAddress resolved true := by
    simp [isPrivateHost, loopback, free, isBlockedIpAddress, real]
  have judged := isPrivateHost_literal lower read
  rw [same] at judged
  tauto

end Answers

section Gate

variable {outside : Outside} {settings : FetchSettings} {context : FetchContext} {url host : Text}

def PublicAnswer (resolved : Text) : Prop :=
  resolved = [] ∨ ∃ literal, literalOf resolved = some literal ∧ ¬literal.Private ∧ toLower resolved = resolved

def MisreadAnswer (resolved : Text) : Prop := ∃ literal, literalOf resolved = some literal ∧ Misread resolved literal

theorem resolvesPrivate_iff (answer : PublicAnswer (outside.hostnameToIPAddr host)) :
    resolvesPrivate outside host = true ↔ MisreadAnswer (outside.hostnameToIPAddr host) := by
  unfold resolvesPrivate MisreadAnswer
  rcases answer with empty | ⟨literal, read, isPublic, lower⟩
  · rw [empty]
    have unread : literalOf [] = none := by decide
    simp [unread]
  · have present : outside.hostnameToIPAddr host ≠ [] := by
      intro empty
      rw [empty] at read
      cases read
    simp only [present, ne_eq, not_false_eq_true, decide_true, Bool.true_and, read, Option.some.injEq, exists_eq_left',
      isBlockedIpAddress_answer lower read isPublic]

theorem public_names_allowed_iff (restricted : isPublicFetchRestricted settings context = true)
    (leads : SchemeLeads outside.parse) (wellFormed : WellFormed url) (parsed : parseHttpUrlTarget outside.parse url = some host)
    (name : DnsName host) (free : isBlockedHostname host = false) (answer : PublicAnswer (outside.hostnameToIPAddr host)) :
    isFetchUrlAllowed outside settings context url = true ↔
      ¬startsWith host ['f', 'c'] ∧ ¬startsWith host ['f', 'd'] ∧ ¬isBlockedIpv4 host ∧
        ¬MisreadAnswer (outside.hostnameToIPAddr host) := by
  obtain ⟨-, -, -, lower, -⟩ := parseHttpUrlTarget_spec parsed
  have plain := parseHttpUrlTarget_visible parsed
  rw [isFetchUrlAllowed_host restricted leads parsed, isPrivateHost_name name plain lower free, ← resolvesPrivate_iff answer]
  simp [wellFormed, and_assoc]

def exampleOutside : Outside where
  parse := authorityParts
  hostnameToIPAddr := fun host => if host = chars "example.com" then chars "93.184.216.34" else []

theorem public_names_allowed_iff_example :
    isFetchUrlAllowed exampleOutside ⟨chars "public", false, 0, 0⟩ .publicRequest (chars "https://Example.com/sub") = true ↔
      ¬startsWith (chars "example.com") ['f', 'c'] ∧ ¬startsWith (chars "example.com") ['f', 'd'] ∧
        ¬isBlockedIpv4 (chars "example.com") ∧ ¬MisreadAnswer (exampleOutside.hostnameToIPAddr (chars "example.com")) := by
  have isPublic : ¬(Literal.ipv4 ⟨93, 184, 216, 34⟩).Private := by
    change ¬Quad.Private ⟨93, 184, 216, 34⟩
    decide
  exact public_names_allowed_iff (by decide) authorityParts_scheme (by decide) (by decide)
    ⟨by decide, by rfl⟩ (by decide) (.inr ⟨.ipv4 ⟨93, 184, 216, 34⟩, by rfl, isPublic, by decide⟩)

theorem public_name_refused :
    ¬∀ (outside : Outside) (settings : FetchSettings) (context : FetchContext) (url host : Text),
      isPublicFetchRestricted settings context = true → SchemeLeads outside.parse → WellFormed url →
      parseHttpUrlTarget outside.parse url = some host → DnsName host → isBlockedHostname host = false →
      PublicAnswer (outside.hostnameToIPAddr host) → isFetchUrlAllowed outside settings context url = true := by
  intro allowed
  have refused : isFetchUrlAllowed exampleOutside ⟨chars "public", false, 0, 0⟩ .publicRequest (chars "https://fdroid.org/repo") =
      false := by decide
  have passed := allowed exampleOutside ⟨chars "public", false, 0, 0⟩ .publicRequest (chars "https://fdroid.org/repo")
    (chars "fdroid.org") (by decide) authorityParts_scheme (by decide) (by decide) ⟨by decide, by rfl⟩
    (by decide) (.inl (by decide))
  rw [refused] at passed
  cases passed

end Gate

end SubConverter.Handler
