import SubConverter.Handler.FetchSources

set_option autoImplicit false

namespace SubConverter.Handler

section Safety

variable {outside : Outside} {settings : FetchSettings} {context : FetchContext} {sourceSwitch : Bool} {url : Text}

def Cleared (outside : Outside) (url : Text) : Prop :=
  (startsWith (toLower url) (chars "http://") = true ∨ startsWith (toLower url) (chars "https://") = true) ∧
    ∃ host, parseHttpUrlTarget outside.parse url = some host ∧ isPrivateHost host = false ∧
      resolvesPrivate outside host = false

def Answer.Safe (outside : Outside) : Answer → Prop
  | .transfers urls => ∀ url ∈ urls, Cleared outside url
  | _ => True

structure AcceptsPlainNames (parse : Text → Option UrlParts) (limit : Option Nat) : Prop where
  limited : ∀ url parts, parse url = some parts → ∀ most ∈ limit, url.length ≤ most
  accepts : ∀ url parts scheme name path, parse url = some parts → (scheme = chars "http" ∨ scheme = chars "https") →
    (name ≠ [] ∧ ∀ c ∈ name, c.isLower = true ∨ c = '.') → PathOf url path →
    (∀ most ∈ limit, (httpUrl scheme name path).length ≤ most) →
    parse (httpUrl scheme name path) = some ⟨scheme, name, none⟩

def Entry.rewrites : Entry → Bool
  | .webGet method _ => method = .get
  | .webGetAsync method => method = .get
  | _ => true

def Entry.fallsBack : Entry → Bool
  | .webGet method keep => method = .get && !keep
  | .webGetAsync _ => false
  | _ => true

def Entry.effective (entry : Entry) (sourceSwitch : Bool) (url : Text) : Text :=
  if entry.rewrites then (resolveCocrSourceUrl url sourceSwitch).effectiveUrl else url

theorem allowed_cases (restricted : isPublicFetchRestricted settings context = true)
    (allowed : isFetchUrlAllowed outside settings context url = true) :
    startsWith (toLower url) (chars "data:") = true ∨ Cleared outside url := by
  rw [isFetchUrlAllowed, restricted] at allowed
  simp only [Bool.not_true, Bool.false_eq_true, if_false] at allowed
  split at allowed
  · cases allowed
  · rename_i plain
    simp only [not_or, ne_eq, not_not] at plain
    obtain ⟨-, trimmed, -⟩ := plain
    rw [trimmed] at allowed
    split at allowed
    · exact .inl ‹_›
    · split at allowed
      · cases allowed
      · rename_i scheme
        simp only [Bool.and_eq_true, Bool.not_eq_true', not_and, Bool.not_eq_false] at scheme
        right
        refine ⟨?_, ?_⟩
        · by_cases http : startsWith (toLower url) (chars "http://") = true
          · exact .inl http
          · exact .inr (scheme (by simpa using http))
        · split at allowed
          · cases allowed
          · rename_i host parsed
            split at allowed
            · cases allowed
            · rename_i isPublic
              exact ⟨host, parsed, by simpa using isPublic, by simpa using allowed⟩

theorem not_isControl_of_pathChar {c : Char} (plain : pathChar c = true) : isControl c = false := by
  have number : c.val.toNat = c.toNat := rfl
  simp only [pathChar, Bool.or_eq_true, decide_eq_true_eq, List.mem_cons, List.not_mem_nil, or_false] at plain
  rcases plain with letter | rfl | rfl | rfl | rfl | rfl | rfl
  · simp only [Char.isAlphanum, Char.isAlpha, Char.isUpper, Char.isLower, Char.isDigit, Bool.or_eq_true, Bool.and_eq_true,
      decide_eq_true_eq, ge_iff_le, UInt32.le_iff_toNat_le, number] at letter
    have range : 48 ≤ c.toNat ∧ c.toNat ≤ 122 := by
      simp only [UInt32.toNat_ofNat, Char.reduceVal] at letter
      omega
    simp only [isControl, Bool.or_eq_false_iff, decide_eq_false_iff_not, beq_eq_false_iff_ne]
    omega
  all_goals rfl

theorem pathOf_noControl {path : Text} (from' : PathOf url path) (visible : hasControlCharacter url = false) :
    hasControlCharacter path = false := by
  simp only [hasControlCharacter, List.any_eq_false, Bool.not_eq_true] at visible ⊢
  intro c there
  rcases from' c there with inside | plain
  · exact visible c inside
  · exact not_isControl_of_pathChar plain

structure PublicName (name : Text) : Prop where
  present : name ≠ []
  letters : ∀ c ∈ name, c.isLower = true ∨ c = '.'
  bare : stripBrackets name = name
  valid : hasInvalidHttpHostCharacter name = false
  normal : normalizeHttpHost name = name
  isPublic : isPrivateHost name = false

theorem parseHttpUrlTarget_plain {scheme name url : Text} (read : outside.parse url = some ⟨scheme, name, none⟩)
    (present : url ≠ []) (visible : hasControlCharacter url = false)
    (http : scheme = chars "http" ∨ scheme = chars "https") (named : PublicName name) :
    parseHttpUrlTarget outside.parse url = some name := by
  have lower : toLower scheme = chars "http" ∨ toLower scheme = chars "https" := by
    rcases http with rfl | rfl
    · exact .inl rfl
    · exact .inr rfl
  have known : ¬(toLower scheme ≠ chars "http" ∧ toLower scheme ≠ chars "https") := by tauto
  simp only [parseHttpUrlTarget, read, present, visible, named.bare, named.present, named.valid, named.normal, known]
  simp

theorem cleared_plainName {limit : Option Nat} {parts : UrlParts} {scheme name path : Text}
    (plain : AcceptsPlainNames outside.parse limit) (parsed : outside.parse url = some parts)
    (visible : hasControlCharacter url = false) (http : scheme = chars "http" ∨ scheme = chars "https")
    (named : PublicName name) (from' : PathOf url path) :
    Cleared outside (httpUrl scheme name path) ↔
      (∀ most ∈ limit, (httpUrl scheme name path).length ≤ most) ∧ resolvesPrivate outside name = false := by
  have target : (∀ most ∈ limit, (httpUrl scheme name path).length ≤ most) →
      parseHttpUrlTarget outside.parse (httpUrl scheme name path) = some name := by
    intro within
    have read := plain.accepts url parts scheme name path parsed http ⟨named.present, named.letters⟩ from' within
    refine parseHttpUrlTarget_plain read (by simp [httpUrl]) ?_ http named
    have tail := pathOf_noControl from' visible
    have plainName : PathOf [] name := by
      intro c there
      rcases named.letters c there with lower | rfl
      · exact .inr (by simp [pathChar, Char.isAlphanum, Char.isAlpha, lower])
      · exact .inr rfl
    have middle := pathOf_noControl plainName rfl
    have first : hasControlCharacter (scheme ++ chars "://") = false := by
      rcases http with rfl | rfl <;> rfl
    rw [hasControlCharacter] at first middle tail ⊢
    have slash : isControl '/' = false := rfl
    rw [httpUrl, List.any_append, List.any_append, first, middle, List.any_cons, slash, tail]
    rfl
  constructor
  · rintro ⟨-, host, read, isPublic, resolved⟩
    obtain ⟨found, accepted, -⟩ := parseHttpUrlTarget_spec read
    have within := plain.limited _ found accepted
    rw [target within] at read
    obtain rfl := Option.some.inj read
    exact ⟨within, resolved⟩
  · rintro ⟨within, resolved⟩
    refine ⟨?_, name, target within, named.isPublic, resolved⟩
    have lowered : toLower (httpUrl scheme name path) = toLower scheme ++ (chars "://" ++ toLower (name ++ '/' :: path)) := by
      simp [httpUrl, toLower, chars]
    rw [lowered]
    rcases http with rfl | rfl
    · exact .inl rfl
    · exact .inr rfl

theorem buildJsdelivrGithubUrl_data (data : startsWith (toLower url) (chars "data:") = true) :
    buildJsdelivrGithubUrl url = none := by
  by_contra built
  obtain ⟨fallback, built⟩ := Option.ne_none_iff_exists'.mp built
  obtain ⟨name, -, starts⟩ := buildJsdelivrGithubUrl_name built
  have head : ∃ rest, url = 'h' :: rest := by
    rcases starts with starts | starts <;>
      · obtain ⟨rest, whole⟩ := List.isPrefixOf_iff_prefix.mp starts
        exact ⟨_, whole.symm⟩
  obtain ⟨rest, rfl⟩ := head
  cases data

theorem buildJsdelivrGithubUrl_rewritten (path : Text) :
    buildJsdelivrGithubUrl (httpUrl (chars "https") (chars "git.asailor.org") path) = none := by
  by_contra built
  obtain ⟨fallback, built⟩ := Option.ne_none_iff_exists'.mp built
  obtain ⟨name, rfl | rfl, starts | starts⟩ := buildJsdelivrGithubUrl_name built <;> cases starts

def Entry.quiet (course : Course) : Entry → Bool
  | .webGetOwned ttl => 0 < ttl && course.answered
  | .webGetOwnedAsync ttl => ttl = 0 || course.answered
  | _ => false

theorem fetch_eq (entry : Entry) (course : Course) (allowed : isFetchUrlAllowed outside settings context url = true) :
    entry.fetch outside settings sourceSwitch context course url =
      if startsWith (entry.effective sourceSwitch url) (chars "data:") then .data
      else if entry.quiet course then .withoutTransfer
      else .transfers (entry.effective sourceSwitch url ::
        if entry.fallsBack && course.failed then (buildJsdelivrGithubUrl (entry.effective sourceSwitch url)).toList
        else []) := by
  obtain ⟨answered, failed⟩ := course
  cases entry with
  | webGet method keep =>
    cases method <;> cases keep <;> cases failed <;>
      simp [Entry.fetch, webGet, gatedFetch, allowed, Entry.effective, Entry.rewrites, Entry.quiet, Entry.fallsBack,
        curlGetWithGitHubFallback]
  | webGetOwned ttl =>
    cases answered <;> cases failed <;>
      simp [Entry.fetch, webGetOwned, gatedFetch, allowed, Entry.effective, Entry.rewrites, Entry.quiet, Entry.fallsBack,
        curlGetWithGitHubFallback]
  | webGetOwnedAsync ttl =>
    cases answered <;> cases failed <;>
      simp [Entry.fetch, webGetOwnedAsync, gatedFetch, allowed, Entry.effective, Entry.rewrites, Entry.quiet,
        Entry.fallsBack, curlGetWithGitHubFallback]
  | webGetAsync method =>
    cases method <;>
      simp [Entry.fetch, webGetAsync, gatedFetch, allowed, Entry.effective, Entry.rewrites, Entry.quiet, Entry.fallsBack]

theorem fetch_safe_iff (entry : Entry) (allowed : isFetchUrlAllowed outside settings context url = true) :
    (∀ course, (entry.fetch outside settings sourceSwitch context course url).Safe outside) ↔
      entry = .webGetOwnedAsync 0 ∨ startsWith (entry.effective sourceSwitch url) (chars "data:") = true ∨
        (Cleared outside (entry.effective sourceSwitch url) ∧
          (entry.fallsBack = true → ∀ fallback, buildJsdelivrGithubUrl (entry.effective sourceSwitch url) = some fallback →
            Cleared outside fallback)) := by
  by_cases silent : entry = .webGetOwnedAsync 0
  · simp only [silent, true_or, iff_true]
    intro course
    rw [fetch_eq _ course allowed]
    split <;> simp [Entry.quiet, Answer.Safe]
  · by_cases data : startsWith (entry.effective sourceSwitch url) (chars "data:") = true
    · simp only [data, true_or, or_true, iff_true]
      intro course
      rw [fetch_eq _ course allowed, if_pos data]
      trivial
    · have loud : ∀ failed, entry.quiet ⟨false, failed⟩ = false := by
        intro failed
        cases entry <;> simp_all [Entry.quiet]
      simp only [silent, data, Bool.false_eq_true, false_or]
      constructor
      · intro safe
        have direct := safe ⟨false, false⟩
        rw [fetch_eq _ _ allowed, if_neg data, loud] at direct
        refine ⟨by simpa [Answer.Safe] using direct, ?_⟩
        intro fallsBack fallback built
        have later := safe ⟨false, true⟩
        rw [fetch_eq _ _ allowed, if_neg data, loud, fallsBack] at later
        simp only [Bool.false_eq_true, if_false, Bool.and_self, if_true, built, Option.toList_some, Answer.Safe,
          List.mem_cons, List.not_mem_nil, or_false, forall_eq_or_imp, forall_eq] at later
        exact later.2
      · rintro ⟨clear, clearFallback⟩ course
        rw [fetch_eq _ course allowed, if_neg data]
        split
        · trivial
        · intro target there
          rcases List.mem_cons.mp there with rfl | there
          · exact clear
          · split at there
            · rename_i considered
              rw [Bool.and_eq_true] at considered
              exact clearFallback considered.1 target (Option.mem_toList.mp there)
            · cases there

theorem resolveCocrSourceUrl_cases (sourceSwitch : Bool) (url : Text) :
    resolveCocrSourceUrl url sourceSwitch = ⟨url, false⟩ ∨
      ∃ effective, rewriteCocrSource url = some effective ∧ resolveCocrSourceUrl url sourceSwitch = ⟨effective, true⟩ := by
  unfold resolveCocrSourceUrl
  cases sourceSwitch with
  | false => exact .inl rfl
  | true =>
    cases rewritten : rewriteCocrSource url with
    | none => exact .inl rfl
    | some effective => exact .inr ⟨effective, rfl, rfl⟩

theorem nameLetters {name : Text} (all : (name.all fun c => c.isLower || c == '.') = true) : ∀ c ∈ name, c.isLower = true ∨ c = '.' := by
  simpa using all

theorem publicName_target : PublicName (chars "git.asailor.org") :=
  ⟨by decide, nameLetters (by decide), by decide, by decide, by decide, by decide⟩

theorem publicName_jsdelivr : PublicName (chars "cdn.jsdelivr.net") :=
  ⟨by decide, nameLetters (by decide), by decide, by decide, by decide, by decide⟩

theorem cleared_not_data (clear : Cleared outside url) : startsWith (toLower url) (chars "data:") = false := by
  have head : ∃ rest, toLower url = 'h' :: rest := by
    rcases clear.1 with starts | starts <;>
      · obtain ⟨rest, whole⟩ := List.isPrefixOf_iff_prefix.mp starts
        exact ⟨_, whole.symm⟩
  obtain ⟨rest, whole⟩ := head
  rw [whole]
  rfl

theorem lower_data (data : startsWith url (chars "data:") = true) : startsWith (toLower url) (chars "data:") = true := by
  obtain ⟨rest, rfl⟩ := List.isPrefixOf_iff_prefix.mp data
  have lowered : toLower (chars "data:" ++ rest) = chars "data:" ++ toLower rest := by
    rw [toLower, List.map_append]
    rfl
  rw [lowered, startsWith, List.isPrefixOf_iff_prefix]
  exact ⟨toLower rest, rfl⟩

theorem parsed_of_cleared (clear : Cleared outside url) :
    ∃ parts, outside.parse url = some parts ∧ hasControlCharacter url = false := by
  obtain ⟨-, host, parsed, -⟩ := clear
  obtain ⟨parts, read, -, -, -, visible⟩ := parseHttpUrlTarget_spec parsed
  exact ⟨parts, read, visible⟩

theorem effective_cases (entry : Entry) (sourceSwitch : Bool) (url : Text) :
    (entry.effective sourceSwitch url = url ∧
        (entry.rewrites = true → (resolveCocrSourceUrl url sourceSwitch).rewritten = false)) ∨
      entry.rewrites = true ∧ (resolveCocrSourceUrl url sourceSwitch).rewritten = true ∧
        rewriteCocrSource url = some (entry.effective sourceSwitch url) := by
  unfold Entry.effective
  cases rewrites : entry.rewrites with
  | false => simp
  | true =>
    rcases resolveCocrSourceUrl_cases sourceSwitch url with same | ⟨effective, rewritten, same⟩
    · simp [same]
    · simp [same, rewritten]

theorem restricted_fetch_safe_iff {limit : Option Nat} (restricted : isPublicFetchRestricted settings context = true)
    (plain : AcceptsPlainNames outside.parse limit) (entry : Entry)
    (allowed : isFetchUrlAllowed outside settings context url = true) :
    (∀ course, (entry.fetch outside settings sourceSwitch context course url).Safe outside) ↔
      entry = .webGetOwnedAsync 0 ∨
        (startsWith (toLower url) (chars "data:") = true → startsWith url (chars "data:") = true) ∧
        (entry.rewrites = true → (resolveCocrSourceUrl url sourceSwitch).rewritten = true →
          resolvesPrivate outside (chars "git.asailor.org") = false) ∧
        (entry.fallsBack = true → ∀ fallback, buildJsdelivrGithubUrl (entry.effective sourceSwitch url) = some fallback →
          (∀ most ∈ limit, fallback.length ≤ most) ∧ resolvesPrivate outside (chars "cdn.jsdelivr.net") = false) := by
  rw [fetch_safe_iff entry allowed]
  refine or_congr_right ?_
  rcases allowed_cases restricted allowed with data | clear
  · -- A `data:` URL is never rewritten, so what counts is its spelling.
    have noFallback := buildJsdelivrGithubUrl_data data
    rcases effective_cases entry sourceSwitch url with ⟨same, kept⟩ | ⟨-, -, rewritten⟩
    · have noTransfer : ¬Cleared outside url := fun clear => by simp [cleared_not_data clear] at data
      rw [same, noFallback]
      simp only [data, noTransfer, reduceCtorEq, false_implies, implies_true, and_true, or_false, true_implies]
      exact (and_iff_left fun rewrites rewritten => by simp [kept rewrites] at rewritten).symm
    · rw [(rewriteCocrSource_spec rewritten).1] at data
      cases data
  · obtain ⟨parts, parsed, visible⟩ := parsed_of_cleared clear
    have noData := cleared_not_data clear
    rcases effective_cases entry sourceSwitch url with ⟨same, kept⟩ | ⟨rewrites, switched, rewritten⟩
    · have noRaw : ¬startsWith url (chars "data:") = true := fun raw => by simp [lower_data raw] at noData
      have fallbacks : ∀ fallback, buildJsdelivrGithubUrl url = some fallback → (Cleared outside fallback ↔
          (∀ most ∈ limit, fallback.length ≤ most) ∧ resolvesPrivate outside (chars "cdn.jsdelivr.net") = false) := by
        intro fallback built
        obtain ⟨scheme, path, http, rfl, from'⟩ := buildJsdelivrGithubUrl_spec built
        exact cleared_plainName plain parsed visible http publicName_jsdelivr from'
      rw [same]
      simp only [noRaw, clear, noData, false_or, true_and, Bool.false_eq_true, false_implies]
      constructor
      · intro safe
        exact ⟨fun rewrites rewritten => by simp [kept rewrites] at rewritten,
          fun fallsBack fallback built => (fallbacks fallback built).mp (safe fallsBack fallback built)⟩
      · rintro ⟨-, safe⟩ fallsBack fallback built
        exact (fallbacks fallback built).mpr (safe fallsBack fallback built)
    · obtain ⟨-, path, target, from', shorter⟩ := rewriteCocrSource_spec rewritten
      have within : ∀ most ∈ limit, (entry.effective sourceSwitch url).length ≤ most :=
        fun most bound => shorter.trans (plain.limited url parts parsed most bound)
      rw [target] at within ⊢
      have noRaw : ¬startsWith (httpUrl (chars "https") (chars "git.asailor.org") path) (chars "data:") = true := by
        simp [httpUrl, chars, startsWith]
      rw [cleared_plainName plain parsed visible (.inr rfl) publicName_target from', buildJsdelivrGithubUrl_rewritten]
      simp only [noRaw, noData, rewrites, switched, reduceCtorEq, Bool.false_eq_true, false_or, false_implies,
        implies_true, true_and, and_true, true_implies]
      exact and_iff_right within

theorem authorityParts_accepts : AcceptsPlainNames authorityParts none := by
  refine ⟨fun url parts _ most bound => (by cases bound), ?_⟩
  intro url parts scheme name path _ http ⟨present, letters⟩ _ _
  have absent : ∀ c, c.isLower = false → c ≠ '.' → c ∉ name := by
    intro c upper other there
    rcases letters c there with lower | same
    · rw [upper] at lower
      cases lower
    · exact other same
  have cut : cutAt (chars "://") (httpUrl scheme name path) = some (scheme, name ++ '/' :: path) := by
    have plain : ':' ∉ scheme := by rcases http with rfl | rfl <;> decide
    rw [httpUrl, List.append_assoc]
    exact cutAt_append (name ++ '/' :: path) rfl plain
  have authority : ((name ++ '/' :: path).takeWhile fun c => decide (c ∉ ['/', '?', '#'])) = name := by
    rw [List.takeWhile_append_of_pos]
    · simp
    · intro c there
      have slash := absent '/' (by decide) (by decide)
      have query := absent '?' (by decide) (by decide)
      have fragment := absent '#' (by decide) (by decide)
      simp only [List.mem_cons, List.not_mem_nil, or_false, decide_eq_true_eq, not_or]
      exact ⟨fun same => slash (same ▸ there), fun same => query (same ▸ there), fun same => fragment (same ▸ there)⟩
  have user : withoutUserinfo name = name := by
    rw [withoutUserinfo, afterLast_eq_none (absent '@' (by decide) (by decide)), Option.getD_none]
  have port : cutAt [':'] name = none := cutAt_eq_none rfl (absent ':' (by decide) (by decide))
  have named : scheme ≠ [] := by rcases http with rfl | rfl <;> decide
  simp only [authorityParts, cut, Option.bind_eq_bind, Option.bind_some, named, if_false, authority, user]
  split
  · exact absurd rfl present
  · exact absurd List.mem_cons_self (absent '[' (by decide) (by decide))
  · rw [port]

theorem restricted_fetch_safe_iff_rewritten :
    (∀ course, ((Entry.webGetOwned 0).fetch ⟨authorityParts, fun _ => []⟩ ⟨chars "public", false, 0, 0⟩ true .publicRequest
        course (chars "https://github.com/Aethersailor/Custom_OpenClash_Rules/raw/main/a")).Safe
          ⟨authorityParts, fun _ => []⟩) ↔
      Entry.webGetOwned 0 = .webGetOwnedAsync 0 ∨
        (startsWith (toLower (chars "https://github.com/Aethersailor/Custom_OpenClash_Rules/raw/main/a")) (chars "data:") = true →
          startsWith (chars "https://github.com/Aethersailor/Custom_OpenClash_Rules/raw/main/a") (chars "data:") = true) ∧
        ((Entry.webGetOwned 0).rewrites = true →
          (resolveCocrSourceUrl (chars "https://github.com/Aethersailor/Custom_OpenClash_Rules/raw/main/a") true).rewritten = true →
          resolvesPrivate ⟨authorityParts, fun _ => []⟩ (chars "git.asailor.org") = false) ∧
        ((Entry.webGetOwned 0).fallsBack = true → ∀ fallback,
          buildJsdelivrGithubUrl ((Entry.webGetOwned 0).effective true
            (chars "https://github.com/Aethersailor/Custom_OpenClash_Rules/raw/main/a")) = some fallback →
          (∀ most ∈ none, fallback.length ≤ most) ∧
            resolvesPrivate ⟨authorityParts, fun _ => []⟩ (chars "cdn.jsdelivr.net") = false) :=
  restricted_fetch_safe_iff (by decide) authorityParts_accepts (.webGetOwned 0) (by decide)

theorem odd_data_transferred :
    isFetchUrlAllowed ⟨authorityParts, fun _ => []⟩ ⟨chars "public", false, 0, 0⟩ .publicRequest (chars "DATA:80/x") = true ∧
      (Entry.webGetAsync .get).fetch ⟨authorityParts, fun _ => []⟩ ⟨chars "public", false, 0, 0⟩ true .publicRequest
        ⟨false, false⟩ (chars "DATA:80/x") = .transfers [chars "DATA:80/x"] ∧
      ¬((Entry.webGetAsync .get).fetch ⟨authorityParts, fun _ => []⟩ ⟨chars "public", false, 0, 0⟩ true .publicRequest
        ⟨false, false⟩ (chars "DATA:80/x")).Safe ⟨authorityParts, fun _ => []⟩ := by
  have handed : (Entry.webGetAsync .get).fetch ⟨authorityParts, fun _ => []⟩ ⟨chars "public", false, 0, 0⟩ true
      .publicRequest ⟨false, false⟩ (chars "DATA:80/x") = .transfers [chars "DATA:80/x"] := by decide
  refine ⟨by decide, handed, ?_⟩
  rw [handed]
  intro safe
  have clear := (safe (chars "DATA:80/x") List.mem_cons_self).1
  revert clear
  decide

end Safety

end SubConverter.Handler
