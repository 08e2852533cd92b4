import SubConverter.Handler.FetchGate

set_option autoImplicit false

namespace SubConverter.Handler

section CocrSources

def kTargetPrefix : Text := chars "https://git.asailor.org/Custom_OpenClash_Rules/main/"

def equalsIgnoreCase (left right : Text) : Bool := toLower left = toLower right

def canonicalSegment (segment : Text) : Bool :=
  segment ≠ [] && segment ≠ ['.'] && segment ≠ ['.', '.'] &&
    segment.all fun c => !(c.toNat < 0x20 || c.toNat == 0x7f || c ∈ ['\\', '%', ':'])

def splitCanonicalPath : Text → List Text
  | '/' :: rest => if (rest.splitOn '/').all canonicalSegment then rest.splitOn '/' else []
  | _ => []

def isOfficialRepository : List Text → Bool
  | owner :: repository :: _ =>
    equalsIgnoreCase owner (chars "Aethersailor") && equalsIgnoreCase repository (chars "Custom_OpenClash_Rules")
  | _ => false

-- What is left of the path behind the branch, when there is something left.
def mainPath : List Text → Option (List Text)
  | head :: rest =>
    if equalsIgnoreCase head (chars "main") then if rest = [] then none else some rest
    else
      match rest with
      | heads :: main :: path =>
        if equalsIgnoreCase head (chars "refs") && equalsIgnoreCase heads (chars "heads") &&
            equalsIgnoreCase main (chars "main") then if path = [] then none else some path
        else none
      | _ => none
  | [] => none

def rawGitHubPath (segments : List Text) : Option (List Text) :=
  if isOfficialRepository segments then mainPath (segments.drop 2) else none

def githubPath (segments : List Text) : Option (List Text) :=
  if isOfficialRepository segments && 5 ≤ segments.length &&
      (equalsIgnoreCase (segments.getD 2 []) (chars "raw") || equalsIgnoreCase (segments.getD 2 []) (chars "blob"))
  then mainPath (segments.drop 3) else none

def jsDelivrPath (segments : List Text) : Option (List Text) :=
  if segments.length < 4 || !equalsIgnoreCase (segments.getD 0 []) (chars "gh") ||
      !equalsIgnoreCase (segments.getD 1 []) (chars "Aethersailor") then none
  else if equalsIgnoreCase (segments.getD 2 []) (chars "Custom_OpenClash_Rules@main") then some (segments.drop 3)
  else if 5 < segments.length && equalsIgnoreCase (segments.getD 2 []) (chars "Custom_OpenClash_Rules@refs") &&
      equalsIgnoreCase (segments.getD 3 []) (chars "heads") && equalsIgnoreCase (segments.getD 4 []) (chars "main") then
    some (segments.drop 5)
  else none

def isJsDelivrHost (host : Text) : Bool :=
  host = chars "jsdelivr.net" || (13 < host.length && endsWith host (chars ".jsdelivr.net"))

def joinPath (segments : List Text) : Text := ['/'].intercalate segments

def repositoryPath (host : Text) (segments : List Text) : Option (List Text) :=
  if host = chars "raw.githubusercontent.com" then rawGitHubPath segments
  else if host = chars "github.com" then githubPath segments
  else if isJsDelivrHost host then jsDelivrPath segments
  else none

structure CocrSourceResolution where
  effectiveUrl : Text
  rewritten : Bool
deriving DecidableEq, Repr

def rewriteCocrSource (url : Text) : Option Text := do
  let (scheme, rest) ← cutAt (chars "://") url
  if toLower scheme ≠ chars "http" ∧ toLower scheme ≠ chars "https" then none
  else do
    let (authority, after) ← cutAt ['/'] rest
    if authority = [] ∨ '@' ∈ authority then none
    else do
      let host := toLower (authority.takeWhile (· ≠ ':'))
      let path := ('/' :: after).takeWhile fun c => c ∉ ['?', '#']
      let suffix := ('/' :: after).dropWhile fun c => c ∉ ['?', '#']
      let segments ← repositoryPath host (splitCanonicalPath path)
      return kTargetPrefix ++ joinPath segments ++ suffix

def resolveCocrSourceUrl (url : Text) (enabled : Bool) : CocrSourceResolution :=
  match if enabled then rewriteCocrSource url else none with
  | some effective => ⟨effective, true⟩
  | none => ⟨url, false⟩

end CocrSources

section Fallback

structure GitHubFileRef where
  owner : Text
  repo : Text
  ref : Text
  path : Text
deriving DecidableEq, Repr

-- Empty segments at the beginning leave no slash.
def joinPathSegments (segments : List Text) : Text :=
  segments.foldl (fun result segment => (if result = [] then result else result ++ ['/']) ++ segment) []

def splitGithubRefPath (segments : List Text) : Option (Text × Text) :=
  match segments with
  | first :: second :: rest =>
    let long := first = chars "refs" ∧ (second = chars "heads" ∨ second = chars "tags")
    let count := if long then 3 else 1
    if long ∧ rest.length < 2 then none
    else
      let ref := if long then joinPathSegments (segments.take 3) else first
      let path := joinPathSegments (segments.drop count)
      if ref = [] ∨ path = [] then none else some (ref, path)
  | _ => none

def contentPath (url name : Text) : Option Text :=
  let secure := chars "https://" ++ name ++ ['/']
  let plain := chars "http://" ++ name ++ ['/']
  if startsWith url secure then some (url.drop secure.length)
  else if startsWith url plain then some (url.drop plain.length)
  else none

def parseRawGithubusercontentUrl (url : Text) : Option GitHubFileRef := do
  let content ← contentPath url (chars "raw.githubusercontent.com")
  match split content '/' with
  | owner :: repo :: rest => do
    if rest.length < 2 then none
    else do
      let (ref, path) ← splitGithubRefPath rest
      return ⟨owner, repo, ref, path⟩
  | _ => none

def parseGithubFileUrl (url : Text) : Option GitHubFileRef := do
  let content ← contentPath url (chars "github.com")
  match split content '/' with
  | owner :: repo :: kind :: rest => do
    if rest.length < 2 ∨ kind ≠ chars "raw" ∧ kind ≠ chars "blob" then none
    else do
      let (ref, path) ← splitGithubRefPath rest
      return ⟨owner, repo, ref, path⟩
  | _ => none

def stripUrlQueryFragment (url : Text) : Text := url.takeWhile fun c => c ∉ ['?', '#']

def buildJsdelivrGithubUrl (url : Text) : Option Text := do
  let clean := stripUrlQueryFragment url
  let file ← (parseRawGithubusercontentUrl clean).or (parseGithubFileUrl clean)
  let scheme := if startsWith clean (chars "http://") then chars "http" else chars "https"
  return scheme ++ chars "://cdn.jsdelivr.net/gh/" ++ file.owner ++ ['/'] ++ file.repo ++ ['@'] ++ file.ref ++ ['/'] ++
    file.path

end Fallback

section EntryPoints

inductive Method where
  | get
  | post
  | patch
  | head
deriving DecidableEq, Repr

/-- How a fetch answers: refused with 403, from a `data:` URL, without a transfer of its own, or with transfers. -/
inductive Answer where
  | refused
  | data
  | withoutTransfer
  | transfers (urls : List Text)
deriving DecidableEq, Repr

structure Course where
  answered : Bool
  failed : Bool

variable (outside : Outside) (settings : FetchSettings) (sourceSwitch : Bool) (context : FetchContext) (course : Course)

def curlGetWithGitHubFallback (method : Method) (keepRespOnFail : Bool) (url : Text) : Answer :=
  if method ≠ .get ∨ keepRespOnFail ∨ !course.failed then .transfers [url]
  else .transfers (url :: (buildJsdelivrGithubUrl url).toList)

/-- The order that all entry points keep: the gate, the source switch, the `data:` test, the transfer. -/
def gatedFetch (rewrites : Bool) (url : Text) (transfer : Text → Answer) : Answer :=
  if !isFetchUrlAllowed outside settings context url then .refused
  else
    let effective := if rewrites then (resolveCocrSourceUrl url sourceSwitch).effectiveUrl else url
    if startsWith effective (chars "data:") then .data else transfer effective

def webGet (method : Method) (keepRespOnFail : Bool) (url : Text) : Answer :=
  gatedFetch outside settings sourceSwitch context (method = .get) url
    (curlGetWithGitHubFallback course method keepRespOnFail)

def webGetOwned (cacheTtl : Nat) (url : Text) : Answer :=
  gatedFetch outside settings sourceSwitch context true url fun effective =>
    if 0 < cacheTtl ∧ course.answered then .withoutTransfer
    else curlGetWithGitHubFallback course .get false effective

def webGetOwnedAsync (cacheTtl : Nat) (url : Text) : Answer :=
  gatedFetch outside settings sourceSwitch context true url fun effective =>
    if cacheTtl = 0 ∨ course.answered then .withoutTransfer
    else curlGetWithGitHubFallback course .get false effective

def webGetAsync (method : Method) (url : Text) : Answer :=
  gatedFetch outside settings sourceSwitch context (method = .get) url fun effective => .transfers [effective]

inductive Entry where
  | webGet (method : Method) (keepRespOnFail : Bool)
  | webGetOwned (cacheTtl : Nat)
  | webGetOwnedAsync (cacheTtl : Nat)
  | webGetAsync (method : Method)
deriving DecidableEq, Repr

def Entry.fetch : Entry → Text → Answer
  | .webGet method keep => Handler.webGet outside settings sourceSwitch context course method keep
  | .webGetOwned ttl => Handler.webGetOwned outside settings sourceSwitch context course ttl
  | .webGetOwnedAsync ttl => Handler.webGetOwnedAsync outside settings sourceSwitch context course ttl
  | .webGetAsync method => Handler.webGetAsync outside settings sourceSwitch context method

end EntryPoints

section SourceTexts

variable {url host effective fallback : Text} {segments rest : List Text}

-- Letters that a URL path may hold anywhere.
def pathChar (c : Char) : Bool := c.isAlphanum || c ∈ ['-', '.', '_', '~', '/', '@']

def httpUrl (scheme name path : Text) : Text := scheme ++ chars "://" ++ name ++ '/' :: path

def PathOf (url path : Text) : Prop := ∀ c ∈ path, c ∈ url ∨ pathChar c = true

theorem PathOf.append {first second : Text} (left : PathOf url first) (right : PathOf url second) :
    PathOf url (first ++ second) := by
  intro c there
  rcases List.mem_append.mp there with there | there
  · exact left c there
  · exact right c there

theorem pathOf_plain {path : Text} (plain : path.all pathChar = true) : PathOf url path :=
  fun c there => .inr (List.all_eq_true.mp plain c there)

theorem pathOf_mem {path : Text} (inside : ∀ c ∈ path, c ∈ url) : PathOf url path :=
  fun c there => .inl (inside c there)

theorem length_of_equalsIgnoreCase {left right : Text} (same : equalsIgnoreCase left right = true) :
    left.length = right.length := by
  simp only [equalsIgnoreCase, decide_eq_true_eq] at same
  simpa [toLower] using congrArg List.length same

theorem mainPath_spec (kept : mainPath segments = some rest) :
    rest ≠ [] ∧ ∃ front, segments = front ++ rest ∧ 4 ≤ front.flatten.length := by
  unfold mainPath at kept
  split at kept
  · rename_i head after
    split at kept
    · rename_i main
      rw [Option.ite_none_left_eq_some] at kept
      obtain ⟨present, same⟩ := kept
      obtain rfl := Option.some.inj same
      have long := length_of_equalsIgnoreCase main
      exact ⟨present, [head], rfl, by simp [long, chars]⟩
    · split at kept
      · rename_i heads main path
        rw [Option.ite_none_right_eq_some, Option.ite_none_left_eq_some] at kept
        obtain ⟨names, present, same⟩ := kept
        obtain rfl := Option.some.inj same
        simp only [Bool.and_eq_true] at names
        have long := length_of_equalsIgnoreCase names.2
        refine ⟨present, [head, heads, main], rfl, ?_⟩
        simp only [List.flatten_cons, List.flatten_nil, List.append_nil, List.length_append, long]
        simp [chars]
        omega
      · cases kept
  · cases kept

theorem isOfficialRepository_spec (official : isOfficialRepository segments = true) :
    ∃ owner repository more, segments = owner :: repository :: more ∧ owner.length = 12 ∧ repository.length = 22 := by
  match segments with
  | [] => cases official
  | [_] => cases official
  | owner :: repository :: more =>
    simp only [isOfficialRepository, Bool.and_eq_true] at official
    exact ⟨owner, repository, more, rfl, length_of_equalsIgnoreCase official.1, length_of_equalsIgnoreCase official.2⟩

theorem exists_four (four : 4 ≤ segments.length) :
    ∃ first second third fourth more, segments = first :: second :: third :: fourth :: more := by
  rcases segments with _ | ⟨first, _ | ⟨second, _ | ⟨third, _ | ⟨fourth, more⟩⟩⟩⟩
  case cons.cons.cons.cons => exact ⟨first, second, third, fourth, more, rfl⟩
  all_goals simp at four

theorem jsDelivrPath_spec (network : isJsDelivrHost host = true) (kept : jsDelivrPath segments = some rest) :
    rest ≠ [] ∧ ∃ front, segments = front ++ rest ∧ 44 ≤ host.length + front.flatten.length := by
  have hostLong : 12 ≤ host.length := by
    simp only [isJsDelivrHost, Bool.or_eq_true, Bool.and_eq_true, decide_eq_true_eq] at network
    rcases network with same | ⟨long, -⟩
    · simp [same, chars]
    · omega
  rw [jsDelivrPath, Option.ite_none_left_eq_some] at kept
  obtain ⟨names, kept⟩ := kept
  simp only [Bool.or_eq_true, decide_eq_true_eq, Bool.not_eq_true', not_or, not_lt, Bool.not_eq_false] at names
  obtain ⟨⟨four, gh⟩, owner⟩ := names
  obtain ⟨first, second, third, fourth, more, rfl⟩ := exists_four four
  have firstLong := length_of_equalsIgnoreCase gh
  have secondLong := length_of_equalsIgnoreCase owner
  simp only [List.getD_cons_succ, List.getD_cons_zero, List.drop_succ_cons, List.drop_zero] at kept firstLong secondLong
  split at kept
  · rename_i main
    have thirdLong := length_of_equalsIgnoreCase main
    obtain rfl := Option.some.inj kept
    refine ⟨by simp, [first, second, third], rfl, ?_⟩
    simp only [List.flatten_cons, List.flatten_nil, List.append_nil, List.length_append, firstLong, secondLong, thirdLong]
    simp [chars]
    omega
  · rw [Option.ite_none_right_eq_some] at kept
    obtain ⟨refs, same⟩ := kept
    simp only [Bool.and_eq_true, decide_eq_true_eq] at refs
    have thirdLong := length_of_equalsIgnoreCase refs.1.1.2
    obtain rfl := Option.some.inj same
    have long := refs.1.1.1
    cases more with
    | nil => simp at long
    | cons fifth path =>
      have present : path ≠ [] := by
        rintro rfl
        simp at long
      refine ⟨by simpa using present, [first, second, third, fourth, fifth], by simp, ?_⟩
      simp only [List.flatten_cons, List.flatten_nil, List.append_nil, List.length_append, firstLong, secondLong,
        thirdLong]
      simp [chars]
      omega

theorem repositoryPath_spec (kept : repositoryPath host segments = some rest) :
    rest ≠ [] ∧ ∃ front, segments = front ++ rest ∧ 44 ≤ host.length + front.flatten.length := by
  unfold repositoryPath at kept
  split at kept
  · rename_i raw
    rw [rawGitHubPath, Option.ite_none_right_eq_some] at kept
    obtain ⟨official, kept⟩ := kept
    obtain ⟨owner, repository, more, rfl, ownerLong, repositoryLong⟩ := isOfficialRepository_spec official
    obtain ⟨present, front, whole, long⟩ := mainPath_spec kept
    refine ⟨present, owner :: repository :: front, by simpa using whole, ?_⟩
    have hostLong : host.length = 25 := by simp [raw, chars]
    simp only [List.flatten_cons, List.length_append, ownerLong, repositoryLong, hostLong]
    omega
  · split at kept
    · rename_i github
      rw [githubPath, Option.ite_none_right_eq_some] at kept
      obtain ⟨names, kept⟩ := kept
      simp only [Bool.and_eq_true, Bool.or_eq_true] at names
      obtain ⟨owner, repository, more, rfl, ownerLong, repositoryLong⟩ := isOfficialRepository_spec names.1.1
      obtain ⟨present, front, whole, long⟩ := mainPath_spec kept
      cases more with
      | nil => simp [mainPath] at kept
      | cons kind more =>
        have kindLong : 3 ≤ kind.length := by
          rcases names.2 with raw | blob
          · have long := length_of_equalsIgnoreCase raw
            simpa [chars] using long.ge
          · have long := length_of_equalsIgnoreCase blob
            have four : kind.length = 4 := by simpa [chars] using long
            omega
        refine ⟨present, owner :: repository :: kind :: front, by simpa using whole, ?_⟩
        have hostLong : host.length = 10 := by simp [github, chars]
        simp only [List.flatten_cons, List.length_append, ownerLong, repositoryLong, hostLong]
        omega
    · rw [Option.ite_none_right_eq_some] at kept
      exact jsDelivrPath_spec kept.1 kept.2

theorem splitCanonicalPath_spec {path : Text} (split' : splitCanonicalPath path = segments) (present : segments ≠ []) :
    path = '/' :: joinPath segments := by
  unfold splitCanonicalPath at split'
  split at split'
  · split at split'
    · rw [← split', joinPath, List.intercalate_splitOn]
    · exact absurd split'.symm present
  · exact absurd split'.symm present

theorem rewriteCocrSource_spec (rewritten : rewriteCocrSource url = some effective) :
    startsWith (toLower url) (chars "data:") = false ∧
      ∃ path, effective = httpUrl (chars "https") (chars "git.asailor.org") path ∧ PathOf url path ∧
        effective.length ≤ url.length := by
  simp only [rewriteCocrSource, Option.bind_eq_bind, Option.bind_eq_some_iff] at rewritten
  obtain ⟨⟨scheme, afterScheme⟩, cut, rewritten⟩ := rewritten
  rw [Option.ite_none_left_eq_some] at rewritten
  obtain ⟨http, rewritten⟩ := rewritten
  obtain ⟨⟨authority, after⟩, cut', rewritten⟩ := Option.bind_eq_some_iff.mp rewritten
  rw [Option.ite_none_left_eq_some] at rewritten
  obtain ⟨-, rewritten⟩ := rewritten
  obtain ⟨rest, kept, same⟩ := Option.bind_eq_some_iff.mp rewritten
  dsimp only at http cut' kept same
  have wholeScheme := eq_of_cutAt cut
  have wholeAuthority := eq_of_cutAt cut'
  have named : toLower scheme = chars "http" ∨ toLower scheme = chars "https" := by
    simp only [ne_eq] at http
    tauto
  obtain ⟨present, front, segments, long⟩ := repositoryPath_spec kept
  have several : front ++ rest ≠ [] := by simp [present]
  have path := splitCanonicalPath_spec segments several
  have joined : joinPath (front ++ rest) = marked '/' front ++ joinPath rest := intercalate_append '/' front present
  have flat := length_flatten_le '/' front
  generalize bodyIs : (('/' :: after).takeWhile fun c => c ∉ ['?', '#']) = body at *
  generalize suffixIs : (('/' :: after).dropWhile fun c => c ∉ ['?', '#']) = suffix at *
  have tail : '/' :: after = '/' :: (marked '/' front ++ joinPath rest) ++ suffix := by
    rw [← joined, ← path, ← bodyIs, ← suffixIs, List.takeWhile_append_dropWhile]
  obtain rfl : kTargetPrefix ++ joinPath rest ++ suffix = effective := by simpa using same
  have whole : url = scheme ++ chars "://" ++ authority ++ '/' :: (marked '/' front ++ joinPath rest ++ suffix) := by
    calc url = scheme ++ chars "://" ++ (authority ++ '/' :: after) := by simp [wholeScheme, wholeAuthority]
      _ = scheme ++ chars "://" ++ authority ++ '/' :: (marked '/' front ++ joinPath rest ++ suffix) := by
        rw [tail]
        simp
  refine ⟨?_, chars "Custom_OpenClash_Rules/main/" ++ joinPath rest ++ suffix, ?_, ?_, ?_⟩
  · have lowered : toLower url = toLower scheme ++ toLower (chars "://" ++ afterScheme) := by
      simp [wholeScheme, toLower]
    rw [lowered]
    rcases named with same | same <;> rw [same] <;> rfl
  · simp [httpUrl, kTargetPrefix, chars]
  · refine ((pathOf_plain (by decide)).append (pathOf_mem fun c there => ?_)).append (pathOf_mem fun c there => ?_)
    · simp [whole, there]
    · simp [whole, there]
  · have hostLong : (toLower (authority.takeWhile (· ≠ ':'))).length ≤ authority.length := by
      simpa [toLower] using (List.takeWhile_prefix _).length_le
    have prefixLong : kTargetPrefix.length = 52 := by simp [kTargetPrefix, chars]
    have schemeLong : 4 ≤ scheme.length := by
      have size : (toLower scheme).length = scheme.length := by simp [toLower]
      rcases named with same | same <;> rw [same] at size <;> simp [chars] at size <;> omega
    have slashes : (chars "://").length = 3 := rfl
    simp only [whole, List.length_append, List.length_cons, prefixLong, slashes]
    omega

theorem mem_split {text part : Text} {separator c : Char} (there : part ∈ split text separator) (inside : c ∈ part) :
    c ∈ text := by
  have whole : part ∈ text.splitOn separator := by
    unfold split at there
    dsimp only at there
    split at there
    · exact List.mem_of_mem_dropLast there
    · exact there
  exact mem_of_mem_splitOn whole inside

theorem pathOf_joinPathSegments (inside : ∀ part ∈ segments, PathOf url part) : PathOf url (joinPathSegments segments) := by
  suffices general : ∀ result, PathOf url result →
      PathOf url (segments.foldl (fun result segment => (if result = [] then result else result ++ ['/']) ++ segment) result) from
    general [] (fun c there => (List.not_mem_nil there).elim)
  induction segments with
  | nil => exact fun result good => good
  | cons part rest ih =>
    intro result good
    refine ih (fun part there => inside part (List.mem_cons_of_mem _ there)) _ (PathOf.append ?_ ?_)
    · split
      · exact good
      · exact good.append (pathOf_plain (by decide))
    · exact inside part List.mem_cons_self

theorem splitGithubRefPath_spec {ref path : Text} (inside : ∀ part ∈ segments, PathOf url part)
    (found : splitGithubRefPath segments = some (ref, path)) : PathOf url ref ∧ PathOf url path := by
  unfold splitGithubRefPath at found
  split at found
  · rename_i first second rest
    dsimp only at found
    rw [Option.ite_none_left_eq_some, Option.ite_none_left_eq_some] at found
    obtain ⟨-, -, same⟩ := found
    simp only [Option.some.injEq, Prod.mk.injEq] at same
    obtain ⟨rfl, rfl⟩ := same
    constructor
    · split
      · exact pathOf_joinPathSegments fun part there => inside part (List.mem_of_mem_take there)
      · exact inside first List.mem_cons_self
    · exact pathOf_joinPathSegments fun part there => inside part (List.mem_of_mem_drop there)
  · cases found

structure GitHubFileRef.Of (file : GitHubFileRef) (url : Text) : Prop where
  owner : PathOf url file.owner
  repo : PathOf url file.repo
  ref : PathOf url file.ref
  path : PathOf url file.path

theorem contentPath_mem {name content : Text} (found : contentPath url name = some content) : ∀ c ∈ content, c ∈ url := by
  intro c there
  unfold contentPath at found
  dsimp only at found
  split at found
  · obtain rfl := Option.some.inj found
    exact List.mem_of_mem_drop there
  · split at found
    · obtain rfl := Option.some.inj found
      exact List.mem_of_mem_drop there
    · cases found

theorem pathOf_split {name content : Text} (found : contentPath url name = some content) :
    ∀ part ∈ split content '/', PathOf url part :=
  fun _ there => pathOf_mem fun c inside => contentPath_mem found c (mem_split there inside)

theorem parseRawGithubusercontentUrl_spec {file : GitHubFileRef} (found : parseRawGithubusercontentUrl url = some file) :
    file.Of url := by
  simp only [parseRawGithubusercontentUrl, Option.bind_eq_bind, Option.bind_eq_some_iff] at found
  obtain ⟨content, path, found⟩ := found
  have parts := pathOf_split path
  split at found
  · rename_i owner repo rest whole
    rw [whole] at parts
    simp only [List.mem_cons, forall_eq_or_imp] at parts
    rw [Option.ite_none_left_eq_some, Option.bind_eq_some_iff] at found
    obtain ⟨-, ⟨ref, tail⟩, read, same⟩ := found
    obtain rfl : ⟨owner, repo, ref, tail⟩ = file := Option.some.inj same
    obtain ⟨good, good'⟩ := splitGithubRefPath_spec parts.2.2 read
    exact ⟨parts.1, parts.2.1, good, good'⟩
  · cases found

theorem parseGithubFileUrl_spec {file : GitHubFileRef} (found : parseGithubFileUrl url = some file) : file.Of url := by
  simp only [parseGithubFileUrl, Option.bind_eq_bind, Option.bind_eq_some_iff] at found
  obtain ⟨content, path, found⟩ := found
  have parts := pathOf_split path
  split at found
  · rename_i owner repo kind rest whole
    rw [whole] at parts
    simp only [List.mem_cons, forall_eq_or_imp] at parts
    rw [Option.ite_none_left_eq_some, Option.bind_eq_some_iff] at found
    obtain ⟨-, ⟨ref, tail⟩, read, same⟩ := found
    obtain rfl : ⟨owner, repo, ref, tail⟩ = file := Option.some.inj same
    obtain ⟨good, good'⟩ := splitGithubRefPath_spec parts.2.2.2 read
    exact ⟨parts.1, parts.2.1, good, good'⟩
  · cases found

theorem buildJsdelivrGithubUrl_name (built : buildJsdelivrGithubUrl url = some fallback) :
    ∃ name, (name = chars "raw.githubusercontent.com" ∨ name = chars "github.com") ∧
      (startsWith url (chars "https://" ++ name ++ ['/']) = true ∨ startsWith url (chars "http://" ++ name ++ ['/']) = true) := by
  simp only [buildJsdelivrGithubUrl, Option.bind_eq_bind, Option.bind_eq_some_iff] at built
  obtain ⟨file, found, -⟩ := built
  have part : ∀ name content, contentPath (stripUrlQueryFragment url) name = some content →
      startsWith url (chars "https://" ++ name ++ ['/']) = true ∨ startsWith url (chars "http://" ++ name ++ ['/']) = true := by
    intro name content read
    have longer : ∀ start, startsWith (stripUrlQueryFragment url) start = true → startsWith url start = true :=
      fun start starts => List.isPrefixOf_iff_prefix.mpr
        ((List.isPrefixOf_iff_prefix.mp starts).trans (List.takeWhile_prefix _))
    unfold contentPath at read
    dsimp only at read
    split at read
    · exact .inl (longer _ ‹_›)
    · split at read
      · exact .inr (longer _ ‹_›)
      · cases read
  rcases Option.or_eq_some_iff.mp found with raw | ⟨-, github⟩
  · obtain ⟨content, read, -⟩ := Option.bind_eq_some_iff.mp raw
    exact ⟨_, .inl rfl, part _ _ read⟩
  · obtain ⟨content, read, -⟩ := Option.bind_eq_some_iff.mp github
    exact ⟨_, .inr rfl, part _ _ read⟩

theorem buildJsdelivrGithubUrl_spec (built : buildJsdelivrGithubUrl url = some fallback) :
    ∃ scheme path, (scheme = chars "http" ∨ scheme = chars "https") ∧
      fallback = httpUrl scheme (chars "cdn.jsdelivr.net") path ∧ PathOf url path := by
  simp only [buildJsdelivrGithubUrl, Option.bind_eq_bind, Option.bind_eq_some_iff] at built
  obtain ⟨file, found, same⟩ := built
  have of : file.Of (stripUrlQueryFragment url) := by
    rcases Option.or_eq_some_iff.mp found with raw | ⟨-, github⟩
    · exact parseRawGithubusercontentUrl_spec raw
    · exact parseGithubFileUrl_spec github
  have whole : ∀ part, PathOf (stripUrlQueryFragment url) part → PathOf url part := by
    intro part good c there
    exact (good c there).imp (fun inside => (List.takeWhile_prefix _).subset inside) id
  refine ⟨if startsWith (stripUrlQueryFragment url) (chars "http://") then chars "http" else chars "https",
    chars "gh/" ++ file.owner ++ ['/'] ++ file.repo ++ ['@'] ++ file.ref ++ ['/'] ++ file.path, ?_,
    (Option.some.inj same).symm.trans ?_, ?_⟩
  · split
    · exact .inl rfl
    · exact .inr rfl
  · simp [httpUrl, chars]
  · have slash : PathOf url ['/'] := pathOf_plain (by decide)
    have sign : PathOf url ['@'] := pathOf_plain (by decide)
    exact ((((((((pathOf_plain (by decide)).append (whole _ of.owner)).append slash).append (whole _ of.repo)).append
      sign).append (whole _ of.ref)).append slash).append (whole _ of.path))

end SourceTexts

end SubConverter.Handler
