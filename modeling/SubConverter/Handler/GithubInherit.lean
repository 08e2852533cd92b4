import SubConverter.Handler.GithubProxy
import SubConverter.Lib.AsciiCase
import SubConverter.Lib.Stripped

set_option autoImplicit false

namespace SubConverter.Handler.GithubProxy

open Rewriting

-- Decided along the text, not over all characters.
local instance (holds : Char → Prop) [DecidablePred holds] (text : Text) : Decidable (∀ c ∈ text, holds c) :=
  List.decidableBAll holds text

section Marks

variable {α : Type} [DecidableEq α] {mark front back : List α}

omit [DecidableEq α] in
theorem infix_append_cases (inside : mark <:+: front ++ back) :
    mark <:+: front ∨ mark <:+: back ∨ ∃ head tail, mark = head ++ tail ∧ head ≠ [] ∧ tail ≠ [] ∧ head <:+ front ∧ tail <+: back := by
  obtain ⟨left, right, same⟩ := inside
  rw [List.append_assoc, List.append_eq_append_iff] at same
  rcases same with ⟨middle, cut, rest⟩ | ⟨middle, cut, rest⟩
  · rcases List.append_eq_append_iff.mp rest with ⟨more, here, there⟩ | ⟨more, here, there⟩
    · exact .inl ⟨left, more, by rw [cut, here, List.append_assoc]⟩
    · by_cases none' : middle = []
      · refine .inr (.inl ⟨[], right, ?_⟩)
        rw [List.nil_append, here, none', List.nil_append, there]
      · by_cases all : more = []
        · exact .inl ⟨left, [], by rw [cut, here, all, List.append_nil, List.append_nil]⟩
        · exact .inr (.inr ⟨middle, more, here, none', all, ⟨left, cut.symm⟩, ⟨right, there.symm⟩⟩)
  · exact .inr (.inl ⟨middle, right, by rw [List.append_assoc, ← rest]⟩)

theorem cutAt_append_of_apart {rest : List α} (present : mark ≠ []) (front' : ¬mark <:+: front)
    (apart : ∀ head tail, mark = head ++ tail → head ≠ [] → tail ≠ [] → ¬tail <+: mark) :
    cutAt mark (front ++ mark ++ rest) = some (front, rest) := by
  refine (cutAt_eq_some_iff present).mpr ⟨rfl, fun inside => ?_⟩
  rcases infix_append_cases inside with there | there | ⟨head, tail, same, some', more, -, behind⟩
  · exact front' there
  · have short := there.length_le
    have positive := List.length_pos_iff.mpr present
    rw [List.length_dropLast] at short
    omega
  · exact apart head tail same some' more (behind.trans (List.dropLast_prefix mark))

end Marks

section Prefixes

variable {proxy front : Text}

theorem trimWhitespace_trim (text : Text) : trimWhitespace (trimWhitespace text) = trimWhitespace text := strip_strip isSpace text

theorem contains_iff {text part : Text} (some' : part ≠ []) : contains text part = true ↔ part <:+: text := by
  rw [contains, Option.isSome_iff_ne_none, Ne, cutAt_eq_none_iff some', not_not]

def Normal (text : Text) : Prop :=
  trimWhitespace text = text ∧
    (text = [] ∨ contains text urlHole = true ∨ contains text encodedUrlHole = true ∨ endsWith text ['/'] = true)

theorem normalize_of_normal {text : Text} (normal : Normal text) : normalizeProxyPrefix text = text := by
  rw [normalizeProxyPrefix, normal.1]
  split
  next => rfl
  next plain =>
    split
    next => rfl
    next open' =>
      rcases normal.2 with empty | url | encoded | closed
      · exact absurd (.inl empty) plain
      · exact absurd (.inr (.inl url)) plain
      · exact absurd (.inr (.inr encoded)) plain
      · exact absurd closed open'

theorem trim_of_ends {text : Text} (first : ∀ c ∈ text.head?, isSpace c = false) (closed : endsWith text ['/'] = true) :
    trimWhitespace text = text := by
  refine strip_eq_self first fun c there => ?_
  obtain ⟨inner, rfl⟩ := List.isSuffixOf_iff_suffix.mp closed
  rw [List.getLast?_concat] at there
  cases there
  decide

theorem normal_normalize (proxy : Text) : Normal (normalizeProxyPrefix proxy) := by
  have trimmed := trimWhitespace_trim proxy
  rw [normalizeProxyPrefix]
  split
  next kept => exact ⟨trimmed, by tauto⟩
  next plain =>
    split
    next closed => exact ⟨trimmed, .inr (.inr (.inr closed))⟩
    next =>
      have closed : endsWith (trimWhitespace proxy ++ ['/']) ['/'] = true :=
        List.isSuffixOf_iff_suffix.mpr (List.suffix_append _ _)
      refine ⟨trim_of_ends (fun c there => ?_) closed, .inr (.inr (.inr closed))⟩
      rw [List.head?_append_of_ne_nil _ fun empty => plain (.inl empty)] at there
      exact (strip_ends isSpace proxy).1 c there

theorem normalize_front {front hole : Text} (normal : Normal (front ++ hole)) (closed : endsWith front ['/'] = true) :
    normalizeProxyPrefix front = front := by
  refine normalize_of_normal ⟨trim_of_ends (fun c there => ?_) closed, .inr (.inr (.inr closed))⟩
  have some' : front ≠ [] := by
    rintro rfl
    cases there
  have first := (strip_ends isSpace (front ++ hole)).1 c
  rw [show strip isSpace (front ++ hole) = front ++ hole from normal.1, List.head?_append_of_ne_nil _ some'] at first
  exact first there

end Prefixes

section Parsing

variable {front : Text}

def isHttp (scheme : Text) : Prop := lowerAscii scheme = chars "http" ∨ lowerAscii scheme = chars "https"

theorem parseUrl_eq {value scheme behind : Text} (cut : cutAt (chars "://") value = some (scheme, behind)) (http : isHttp scheme)
    (authority : (behind.takeWhile fun c => !startsPath c) ≠ []) :
    parseUrl value =
      { scheme := lowerAscii scheme, authority := behind.takeWhile fun c => !startsPath c,
        host := hostOf (behind.takeWhile fun c => !startsPath c), path := behind.dropWhile fun c => !startsPath c,
        pathStart := some (value.length - (behind.dropWhile fun c => !startsPath c).length),
        valid := hostOf (behind.takeWhile fun c => !startsPath c) ≠ [] } := by
  have other : ¬(lowerAscii scheme ≠ chars "http" ∧ lowerAscii scheme ≠ chars "https") := by
    rintro ⟨plain, secure⟩
    rcases http with here | here
    · exact plain here
    · exact secure here
  rw [parseUrl, cut]
  dsimp only
  rw [if_neg other, if_neg authority]

theorem cut_of_valid {value : Text} (valid : (parseUrl value).valid = true) :
    ∃ scheme behind, cutAt (chars "://") value = some (scheme, behind) ∧ isHttp scheme ∧
      (behind.takeWhile fun c => !startsPath c) ≠ [] := by
  rw [parseUrl] at valid
  cases cut : cutAt (chars "://") value with
  | none =>
    rw [cut] at valid
    cases valid
  | some parts =>
    obtain ⟨scheme, behind⟩ := parts
    rw [cut] at valid
    dsimp only at valid
    refine ⟨scheme, behind, rfl, ?_, ?_⟩
    · by_contra other
      rw [isHttp, not_or] at other
      rw [if_pos other] at valid
      cases valid
    · intro none'
      rw [if_pos none', ite_self] at valid
      cases valid

theorem parseUrl_append (valid : (parseUrl front).valid = true) (path : (parseUrl front).path ≠ []) (more : Text) :
    parseUrl (front ++ more) = { parseUrl front with path := (parseUrl front).path ++ more } := by
  obtain ⟨scheme, behind, cut, http, authority⟩ := cut_of_valid valid
  rw [parseUrl_eq cut http authority] at path ⊢
  have ends : (behind ++ more).dropWhile (fun c => !startsPath c) = (behind.dropWhile fun c => !startsPath c) ++ more := by
    rw [List.dropWhile_append, if_neg (by simpa using path)]
  have starts : (behind ++ more).takeWhile (fun c => !startsPath c) = behind.takeWhile fun c => !startsPath c := by
    refine @List.append_cancel_right _ _ ((behind.dropWhile fun c => !startsPath c) ++ more) _ ?_
    rw [← ends, List.takeWhile_append_dropWhile, ends, ← List.append_assoc, List.takeWhile_append_dropWhile]
  have cut' : cutAt (chars "://") (front ++ more) = some (scheme, behind ++ more) := by
    obtain ⟨rfl, first⟩ := (cutAt_eq_some_iff (by decide)).mp cut
    exact (cutAt_eq_some_iff (by decide)).mpr ⟨List.append_assoc _ _ _, first⟩
  rw [parseUrl_eq cut' http (by rwa [starts]), starts, ends, List.length_append, List.length_append, Nat.add_sub_add_right]

theorem parseUrl_path (valid : (parseUrl front).valid = true) : ∃ scheme origin, lowerAscii scheme = (parseUrl front).scheme ∧
    origin = scheme ++ chars "://" ++ (parseUrl front).authority ∧ front = origin ++ (parseUrl front).path ∧
    (parseUrl front).pathStart = some origin.length := by
  obtain ⟨scheme, behind, cut, http, authority⟩ := cut_of_valid valid
  have whole := eq_of_cutAt cut
  rw [parseUrl_eq cut http authority]
  have split : front = scheme ++ chars "://" ++ (behind.takeWhile fun c => !startsPath c) ++ behind.dropWhile fun c => !startsPath c := by
    rw [List.append_assoc _ (behind.takeWhile _), List.takeWhile_append_dropWhile, whole]
  refine ⟨scheme, _, rfl, rfl, split, congrArg some ?_⟩
  have size := congrArg List.length split
  rw [List.length_append] at size
  change front.length - (behind.dropWhile fun c => !startsPath c).length =
    (scheme ++ chars "://" ++ behind.takeWhile fun c => !startsPath c).length
  omega

end Parsing

section Markers

variable {front embedded marker : Text} {markers : List Text}

structure Addressed (marker : Text) : Prop where
  starts : ['h', 't'] <+: marker
  once : ¬['h', 't'] <:+: marker.tail
  last : marker.getLast? ≠ some 'h'

theorem addressed_markers : (∀ marker ∈ rawMarkers, Addressed marker) ∧ ∀ marker ∈ encodedMarkers, Addressed marker := by
  have starts : ∀ marker ∈ rawMarkers ++ encodedMarkers, ['h', 't'] <+: marker := by decide
  have once : ∀ marker ∈ rawMarkers ++ encodedMarkers, ¬['h', 't'] <:+: marker.tail := by decide
  have last : ∀ marker ∈ rawMarkers ++ encodedMarkers, marker.getLast? ≠ some 'h' := by decide
  simp only [List.mem_append] at starts once last
  exact ⟨fun marker there => ⟨starts marker (.inl there), once marker (.inl there), last marker (.inl there)⟩,
    fun marker there => ⟨starts marker (.inr there), once marker (.inr there), last marker (.inr there)⟩⟩

theorem Addressed.apart (addressed : Addressed marker) {text : Text} (starts : ['h', 't'] <+: text) :
    ∀ head tail, marker = head ++ tail → head ≠ [] → tail ≠ [] → ¬tail <+: text := by
  rintro head tail rfl some' more inside
  obtain ⟨c, head, rfl⟩ := List.exists_cons_of_ne_nil some'
  obtain ⟨rest, rfl⟩ := starts
  cases tail with
  | nil => exact more rfl
  | cons first tail =>
    obtain ⟨rfl, later⟩ := List.cons_prefix_cons.mp inside
    cases tail with
    | nil => exact addressed.last (by rw [List.getLast?_concat])
    | cons second tail =>
      obtain ⟨rfl, -⟩ := List.cons_prefix_cons.mp later
      exact addressed.once ⟨head, tail, by simp⟩

theorem Addressed.ne_nil (addressed : Addressed marker) : marker ≠ [] := by
  rintro rfl
  exact absurd addressed.starts.length_le (by decide)

theorem lowerAscii_append (front back : Text) : lowerAscii (front ++ back) = lowerAscii front ++ lowerAscii back := List.map_append

theorem markerPlace_front (addressed : ∀ marker ∈ markers, Addressed marker)
    (clean : ∀ marker ∈ markers, ¬marker <:+: lowerAscii front) (own : ∃ marker ∈ markers, marker <+: lowerAscii embedded)
    (earlier : ∀ marker ∈ markers.takeWhile fun marker => !marker.isPrefixOf (lowerAscii embedded),
      ¬marker <:+: lowerAscii embedded) :
    markerPlace markers (front ++ embedded) = some front.length := by
  have address : ['h', 't'] <+: lowerAscii embedded := by
    obtain ⟨marker, there, starts⟩ := own
    exact (addressed marker there).starts.trans starts
  rw [markerPlace, lowerAscii_append]
  induction markers with
  | nil =>
    obtain ⟨marker, there, -⟩ := own
    cases there
  | cons marker rest ih =>
    rw [List.forall_mem_cons] at addressed clean
    by_cases here : marker <+: lowerAscii embedded
    · obtain ⟨more, same⟩ := here
      rw [List.findSome?_cons, ← same, ← List.append_assoc,
        cutAt_append_of_apart addressed.1.ne_nil clean.1 (addressed.1.apart addressed.1.starts)]
      simp [lowerAscii]
    · have other : (!marker.isPrefixOf (lowerAscii embedded)) = true := by
        rw [Bool.not_eq_true', ← Bool.not_eq_true, List.isPrefixOf_iff_prefix]
        exact here
      rw [List.takeWhile_cons, if_pos other, List.forall_mem_cons] at earlier
      have absent : cutAt marker (lowerAscii front ++ lowerAscii embedded) = none := by
        refine (cutAt_eq_none_iff addressed.1.ne_nil).mpr fun inside => ?_
        rcases infix_append_cases inside with there | there | ⟨head, tail, same, some', more, -, behind⟩
        · exact clean.1 there
        · exact earlier.1 there
        · exact addressed.1.apart address head tail same some' more behind
      rw [List.findSome?_cons, absent]
      refine ih addressed.2 clean.2 ?_ earlier.2
      obtain ⟨first, there, starts⟩ := own
      rcases List.mem_cons.mp there with rfl | later
      · exact absurd starts here
      · exact ⟨first, later, starts⟩

theorem markerPlace_none {mark : Char} (addressed : ∀ marker ∈ markers, Addressed marker)
    (clean : ∀ marker ∈ markers, ¬marker <:+: lowerAscii front) (last : ∀ marker ∈ markers, marker.getLast? = some mark)
    (absent : mark ∉ lowerAscii embedded) : markerPlace markers (front ++ embedded) = none := by
  rw [markerPlace, List.findSome?_eq_none_iff]
  intro marker there
  rw [Option.map_eq_none_iff, lowerAscii_append, cutAt_eq_none_iff (addressed marker there).ne_nil]
  intro inside
  have ends := last marker there
  rcases infix_append_cases inside with here | here | ⟨head, tail, rfl, -, more, -, behind⟩
  · exact clean marker there here
  · exact absent (here.subset (List.mem_of_getLast? ends))
  · rw [List.getLast?_append_of_ne_nil _ more] at ends
    exact absent (behind.subset (List.mem_of_getLast? ends))

section Sites

structure Site (front : Text) : Prop where
  valid : (parseUrl front).valid = true
  path : (parseUrl front).path ≠ []
  elsewhere : isGitHubHost (parseUrl front).host = false
  clean : ∀ marker ∈ rawMarkers, ¬marker <:+: lowerAscii (parseUrl front).path.tail

theorem Site.infer (site : Site front) (apart : ¬(isJsdelivrHost (parseUrl front).host ∧
      startsWith ((parseUrl front).path ++ embedded) (chars "/gh/") = true)) :
    inferGitHubProxyPrefixFromConfigUrl (front ++ embedded) = normalizeProxyPrefix
      (match markerPlace rawMarkers ((parseUrl front).path.tail ++ embedded) with
      | some pos => (front ++ embedded).take (front.length - (parseUrl front).path.length + 1 + pos)
      | none =>
        match markerPlace encodedMarkers ((parseUrl front).path.tail ++ embedded) with
        | some pos => (front ++ embedded).take (front.length - (parseUrl front).path.length + 1 + pos) ++ encodedUrlHole
        | none => []) := by
  obtain ⟨scheme, origin, -, -, split, start⟩ := parseUrl_path site.valid
  have size : front.length - (parseUrl front).path.length = origin.length := by
    have sum := congrArg List.length split
    rw [List.length_append] at sum
    omega
  have positive := List.length_pos_iff.mpr site.path
  have rest : (front ++ embedded).drop (origin.length + 1) = (parseUrl front).path.tail ++ embedded := by
    obtain ⟨c, more, path⟩ := List.exists_cons_of_ne_nil site.path
    rw [path] at split ⊢
    conv_lhs => rw [split]
    rw [List.append_assoc, ← List.drop_drop, List.drop_left]
    rfl
  have inside : ¬origin.length ≥ (front ++ embedded).length := by
    have sum := congrArg List.length split
    rw [List.length_append] at sum ⊢
    omega
  rw [inferGitHubProxyPrefixFromConfigUrl, parseUrl_append site.valid site.path]
  dsimp only
  rw [site.valid, site.elsewhere, if_neg (by simp), if_neg apart, embeddedGitHubUrlPrefix]
  dsimp only
  rw [start]
  dsimp only
  rw [if_neg inside, rest]
  exact size ▸ rfl

theorem Site.take (site : Site front) :
    (front ++ embedded).take (front.length - (parseUrl front).path.length + 1 + (parseUrl front).path.tail.length) = front := by
  obtain ⟨scheme, origin, -, -, split, -⟩ := parseUrl_path site.valid
  have sum := congrArg List.length split
  have positive := List.length_pos_iff.mpr site.path
  rw [List.length_append] at sum
  have size : front.length - (parseUrl front).path.length + 1 + (parseUrl front).path.tail.length = front.length := by
    rw [List.length_tail]
    omega
  rw [size, List.take_left]

end Sites

end Markers

section Holes

variable {front hole filling : Text}

theorem advances_replace (some' : hole ≠ []) : Advances (replaceAt hole filling) where
  within := by
    intro before rest out left c hit
    rw [replaceAt] at hit
    split at hit
    next =>
      cases hit
      obtain ⟨d, more, rfl⟩ := List.exists_cons_of_ne_nil some'
      exact List.drop_suffix more.length rest
    next => cases hit

theorem replaceAll_end (first : cutAt hole (front ++ hole) = some (front, [])) (some' : hole ≠ []) (filling : Text) :
    replaceAll (front ++ hole) hole filling = front ++ filling := by
  have early := ((cutAt_eq_some_iff some').mp first).2
  rw [replaceAll, rewrite, rewriteFrom_misses]
  · obtain ⟨c, more, same⟩ := List.exists_cons_of_ne_nil some'
    have hit : replaceAt hole filling ([] ++ front) (c :: more) = some (filling, []) := by
      rw [replaceAt, ← same, if_pos (by simp), List.drop_length]
    rw [List.nil_append] at hit ⊢
    conv_lhs => rw [same]
    rw [rewriteFrom_hit (same ▸ advances_replace some') (by rw [← same] at hit ⊢; exact hit)]
    rfl
  · intro taken c back split
    rw [replaceAt, if_neg]
    intro starts
    rw [List.isPrefixOf_iff_prefix] at starts
    have shorter : c :: back ++ hole.dropLast <+: c :: (back ++ hole) := by
      rw [← List.cons_append, List.prefix_append_right_inj]
      exact List.dropLast_prefix hole
    have size : hole.length ≤ (c :: back ++ hole.dropLast).length := by
      rw [List.length_append, List.length_dropLast, List.length_cons]
      omega
    have inside := List.prefix_of_prefix_length_le starts shorter size
    rw [split] at early
    exact early (inside.isInfix.trans ⟨taken, [], by simp⟩)

end Holes

section Encoding

theorem toHex_ne {mark : Char} (below : mark.toNat < 48) (some' : mark.toNat ≠ 0) (x : Nat) : toHex x ≠ mark := by
  have value (n : Nat) : (Char.ofNat n).toNat = n ∨ (Char.ofNat n).toNat = 0 := by
    rw [Char.ofNat]
    split
    next => exact .inl rfl
    next => exact .inr rfl
  rintro rfl
  rcases value (if x > 9 then x + 55 else x + 48) with same | zero
  · rw [toHex, same] at below
    split at below <;> omega
  · exact some' zero

def encodeChar (c : Char) : Text :=
  if c.isAlphanum ∨ c ∈ ['-', '_', '.', '~'] then [c] else ['%', toHex (c.toNat / 16), toHex (c.toNat % 16)]

theorem urlEncode_eq (url : Text) : urlEncode url = url.flatMap encodeChar := rfl

theorem slash_not_mem_urlEncode (url : Text) : '/' ∉ lowerAscii (urlEncode url) := by
  intro there
  obtain ⟨d, among, lower⟩ := List.mem_map.mp there
  obtain rfl := eq_of_toLower (by decide) lower
  rw [urlEncode_eq, List.mem_flatMap] at among
  obtain ⟨c, -, inside⟩ := among
  rw [encodeChar] at inside
  split at inside
  next kept =>
    obtain rfl := List.mem_singleton.mp inside
    revert kept
    decide
  next =>
    simp only [List.mem_cons, List.not_mem_nil, or_false] at inside
    rcases inside with percent | high | low
    · cases percent
    · exact toHex_ne (by decide) (by decide) _ high.symm
    · exact toHex_ne (by decide) (by decide) _ low.symm

theorem lowerAscii_urlEncode (url : Text) : lowerAscii (urlEncode url) = lowerAscii (urlEncode (lowerAscii url)) := by
  have one (c : Char) : lowerAscii (encodeChar c) = lowerAscii (encodeChar c.toLower) := by
    cases upper : c.isUpper with
    | false => rw [toLower_of_not_isUpper upper]
    | true =>
      have letter : c.isAlphanum = true := by simp [Char.isAlphanum, Char.isAlpha, upper]
      have lower : c.toLower.isAlphanum = true := by simp [Char.isAlphanum, Char.isAlpha, isLower_of_isUpper upper]
      rw [encodeChar, encodeChar, if_pos (.inl letter), if_pos (.inl lower)]
      simp only [lowerAscii, List.map_cons, List.map_nil, toLower_toLower_char]
  rw [urlEncode_eq, urlEncode_eq]
  induction url with
  | nil => rfl
  | cons c rest ih =>
    rw [List.flatMap_cons, lowerAscii_append, ih, one]
    exact (lowerAscii_append (encodeChar c.toLower) ((lowerAscii rest).flatMap encodeChar)).symm

end Encoding

section GitHub

def IsGitHubAddress (url : Text) : Prop := ∃ marker ∈ rawMarkers, marker <+: lowerAscii url

variable {url : Text}

theorem cut_lower {text left mark rest : Text} (lower : lowerAscii text = left ++ mark ++ rest) (plain : ∀ c ∈ mark, c.isAlphanum = false) :
    ∃ head tail, text = head ++ mark ++ tail ∧ lowerAscii head = left ∧ lowerAscii tail = rest := by
  obtain ⟨front, tail, rfl, same, last⟩ := List.map_eq_append_iff.mp lower
  obtain ⟨head, middle, rfl, first, here⟩ := List.map_eq_append_iff.mp same
  refine ⟨head, tail, ?_, first, last⟩
  have kept : middle = mark := by
    clear lower same
    induction middle generalizing mark with
    | nil => simpa using here
    | cons c rest ih =>
      cases mark with
      | nil => cases here
      | cons d mark =>
        rw [List.forall_mem_cons] at plain
        rw [List.map_cons, List.cons.injEq] at here
        rw [eq_of_toLower plain.1 here.1, ih plain.2 here.2]
  rw [kept]

theorem not_mem_of_lower {text : Text} {mark : Char} (other : mark.isAlphanum = false) (absent : mark ∉ lowerAscii text) : mark ∉ text :=
  fun there => absent (List.mem_map.mpr ⟨mark, there, toLower_of_not_alphanum other⟩)

theorem IsGitHubAddress.parse (github : IsGitHubAddress url) : (parseUrl url).valid = true ∧ isGitHubHost (parseUrl url).host = true := by
  have parts : ∀ marker ∈ rawMarkers, ∃ host ∈ ["github.com", "raw.githubusercontent.com", "gist.githubusercontent.com"].map chars,
      marker = chars "https" ++ chars "://" ++ (host ++ ['/']) := by decide
  have bare : ∀ host ∈ ["github.com", "raw.githubusercontent.com", "gist.githubusercontent.com"].map chars,
      host ≠ [] ∧ ∀ mark ∈ ['/', '?', '#', '@', ':'], mark ∉ host := by decide
  obtain ⟨marker, there, more, same⟩ := github
  obtain ⟨host, known, rfl⟩ := parts marker there
  rw [List.append_assoc] at same
  obtain ⟨scheme, behind, rfl, secure, rest⟩ := cut_lower same.symm (by decide)
  obtain ⟨authority, path, rfl, lower, -⟩ := cut_lower rest (by decide)
  obtain ⟨some', plain⟩ := bare host known
  have marks (mark : Char) (among : mark ∈ ['/', '?', '#', '@', ':']) : mark ∉ authority := by
    have other : ∀ mark ∈ ['/', '?', '#', '@', ':'], mark.isAlphanum = false := by decide
    exact not_mem_of_lower (other mark among) (lower ▸ plain mark among)
  have cut : cutAt (chars "://") (scheme ++ chars "://" ++ (authority ++ ['/'] ++ path)) = some (scheme, authority ++ ['/'] ++ path) :=
    cutAt_append _ rfl (not_mem_of_lower (by decide) (by rw [secure]; decide))
  have taken : (authority ++ ['/'] ++ path).takeWhile (fun c => !startsPath c) = authority := by
    rw [List.append_assoc, List.takeWhile_append_of_pos]
    · exact List.append_nil authority
    · intro c there
      rw [Bool.not_eq_true', startsPath, decide_eq_false_iff_not]
      intro among
      have wider : ∀ c ∈ ['/', '?', '#'], c ∈ ['/', '?', '#', '@', ':'] := by decide
      exact marks c (wider c among) there
  have named : hostOf authority = host := by
    rw [hostOf, if_neg (marks '@' (by decide)), List.takeWhile_eq_self_iff.mpr, lower]
    exact fun c there => decide_eq_true fun colon => marks ':' (by decide) (colon ▸ there)
  have present : authority ≠ [] := by
    rintro rfl
    exact some' lower.symm
  rw [parseUrl_eq cut (.inr secure) (by rwa [taken]), taken, named]
  exact ⟨decide_eq_true some', decide_eq_true known⟩

theorem IsGitHubAddress.encoded (github : IsGitHubAddress url) : ∃ marker ∈ encodedMarkers, marker <+: lowerAscii (urlEncode url) := by
  obtain ⟨marker, there, more, same⟩ := github
  rw [lowerAscii_urlEncode, ← same, urlEncode, List.flatMap_append, lowerAscii_append]
  refine ⟨lowerAscii (urlEncode marker), ?_, List.prefix_append _ _⟩
  have all : ∀ marker ∈ rawMarkers, lowerAscii (urlEncode marker) ∈ encodedMarkers := by decide
  exact all marker there

end GitHub

section Applying

variable {proxy front url : Text}

theorem apply_normalize (url proxy : Text) : applyGitHubProxyToUrl url (normalizeProxyPrefix proxy) = applyGitHubProxyToUrl url proxy := by
  rw [applyGitHubProxyToUrl, applyGitHubProxyToUrl, normalize_of_normal (normal_normalize proxy)]

theorem apply_other (other : isGitHubUrl url = false) (proxy : Text) : applyGitHubProxyToUrl url proxy = url := by
  rw [applyGitHubProxyToUrl, other]
  exact if_pos (.inr rfl)

theorem apply_blank (url : Text) : applyGitHubProxyToUrl url [] = url := by
  rw [applyGitHubProxyToUrl, show normalizeProxyPrefix [] = [] by decide]
  exact if_pos (.inl rfl)

theorem not_contains {text hole : Text} (some' : hole ≠ []) (plain : ¬hole <:+: text) : contains text hole = false := by
  rw [← Bool.not_eq_true, contains_iff some']
  exact plain

theorem apply_bare (normal : normalizeProxyPrefix proxy = proxy) (some' : proxy ≠ []) (github : isGitHubUrl url = true)
    (plain : ∀ hole ∈ [urlHole, encodedUrlHole], ¬hole <:+: proxy) :
    applyGitHubProxyToUrl url proxy =
      if (parseUrl proxy).valid ∧ isJsdelivrHost (parseUrl proxy).host then
        if jsdelivrGhPath url = [] then url else proxy ++ jsdelivrGhPath url
      else proxy ++ url := by
  rw [applyGitHubProxyToUrl, normal, not_contains (by decide) (plain urlHole (by decide)),
    not_contains (by decide) (plain encodedUrlHole (by decide)), github]
  rw [if_neg (by simp [some']), if_neg Bool.false_ne_true, if_neg Bool.false_ne_true]

theorem hole_apart {hole : Text} (known : hole ∈ [urlHole, encodedUrlHole]) {text : Text} (starts : ∃ rest, text = '\x7b' :: rest) :
    ∀ head tail, hole = head ++ tail → head ≠ [] → tail ≠ [] → ¬tail <+: text := by
  have once : ∀ hole ∈ [urlHole, encodedUrlHole], '\x7b' ∉ hole.tail := by decide
  rintro head tail rfl some' more inside
  obtain ⟨rest, rfl⟩ := starts
  obtain ⟨c, head, rfl⟩ := List.exists_cons_of_ne_nil some'
  obtain ⟨d, tail, rfl⟩ := List.exists_cons_of_ne_nil more
  obtain ⟨rfl, -⟩ := List.cons_prefix_cons.mp inside
  exact once _ known (by simp)

theorem cutAt_hole {hole : Text} (known : hole ∈ [urlHole, encodedUrlHole]) (plain : ¬hole <:+: front) :
    cutAt hole (front ++ hole) = some (front, []) := by
  have braces : ∀ hole ∈ [urlHole, encodedUrlHole], ∃ rest, hole = '\x7b' :: rest := by
    intro hole there
    simp only [List.mem_cons, List.not_mem_nil, or_false] at there
    rcases there with rfl | rfl
    · exact ⟨_, rfl⟩
    · exact ⟨_, rfl⟩
  obtain ⟨rest, same⟩ := braces hole known
  have cut : cutAt hole (front ++ hole ++ []) = some (front, []) :=
    cutAt_append_of_apart (by rw [same]; exact List.cons_ne_nil _ _) plain (hole_apart known ⟨rest, same⟩)
  rwa [List.append_nil] at cut

theorem apply_urlHole (normal : normalizeProxyPrefix (front ++ urlHole) = front ++ urlHole) (github : isGitHubUrl url = true)
    (plain : ∀ hole ∈ [urlHole, encodedUrlHole], ¬hole <:+: front) : applyGitHubProxyToUrl url (front ++ urlHole) = front ++ url := by
  have other : contains (front ++ urlHole) encodedUrlHole = false := by
    refine not_contains (by decide) fun inside => ?_
    rcases infix_append_cases inside with there | there | ⟨head, tail, same, some', more, -, behind⟩
    · exact plain encodedUrlHole (by decide) there
    · exact absurd there.length_le (by decide)
    · exact hole_apart (by decide) ⟨_, rfl⟩ head tail same some' more behind
  have own : contains (front ++ urlHole) urlHole = true := (contains_iff (by decide)).mpr List.infix_append_right
  have some' : front ++ urlHole ≠ [] := by simp [urlHole, chars]
  rw [applyGitHubProxyToUrl, normal, other, own, github]
  rw [if_neg (by simp [some']), if_neg Bool.false_ne_true, if_pos rfl]
  exact replaceAll_end (cutAt_hole (by decide) (plain urlHole (by decide))) (by decide) url

theorem apply_encodedUrlHole (normal : normalizeProxyPrefix (front ++ encodedUrlHole) = front ++ encodedUrlHole)
    (github : isGitHubUrl url = true) (plain : ∀ hole ∈ [urlHole, encodedUrlHole], ¬hole <:+: front) :
    applyGitHubProxyToUrl url (front ++ encodedUrlHole) = front ++ urlEncode url := by
  have own : contains (front ++ encodedUrlHole) encodedUrlHole = true := (contains_iff (by decide)).mpr List.infix_append_right
  have some' : front ++ encodedUrlHole ≠ [] := by simp [encodedUrlHole, chars]
  rw [applyGitHubProxyToUrl, normal, own, github]
  rw [if_neg (by simp [some']), if_pos rfl]
  exact replaceAll_end (cutAt_hole (by decide) (plain encodedUrlHole (by decide))) (by decide) (urlEncode url)

end Applying

section Inheriting

variable {proxy url other front : Text}

inductive Recoverable (proxy url other : Text) : Prop
  | blank (empty : proxy = [])
  | embedded (front hole : Text) (holes : hole ∈ [[], urlHole, encodedUrlHole]) (whole : proxy = front ++ hole) (site : Site front)
    (plain : ∀ hole ∈ [urlHole, encodedUrlHole], ¬hole <:+: front)
    (closed : hole ≠ encodedUrlHole → endsWith front ['/'] = true ∧ isJsdelivrHost (parseUrl front).host = false ∧
      ∀ marker ∈ rawMarkers.takeWhile fun marker => !marker.isPrefixOf (lowerAscii url), ¬marker <:+: lowerAscii url)
    (encoded : hole = encodedUrlHole →
      (isJsdelivrHost (parseUrl front).host = true → startsWith (parseUrl front).path (chars "/gh/") = false) ∧
      (∀ marker ∈ encodedMarkers, ¬marker <:+: lowerAscii (parseUrl front).path.tail) ∧
      ∀ marker ∈ encodedMarkers.takeWhile fun marker => !marker.isPrefixOf (lowerAscii (urlEncode url)),
        ¬marker <:+: lowerAscii (urlEncode url))
  | jsdelivr (valid : (parseUrl proxy).valid = true) (host : isJsdelivrHost (parseUrl proxy).host = true)
    (plain : ∀ hole ∈ [urlHole, encodedUrlHole], ¬hole <:+: proxy)
    (root : proxy = (parseUrl proxy).scheme ++ chars "://" ++ (parseUrl proxy).authority ++ ['/'])
    (converted : jsdelivrGhPath url ≠ [])
  | unconverted (valid : (parseUrl proxy).valid = true) (host : isJsdelivrHost (parseUrl proxy).host = true)
    (plain : ∀ hole ∈ [urlHole, encodedUrlHole], ¬hole <:+: proxy)
    (url : jsdelivrGhPath url = []) (other : jsdelivrGhPath other = [])

theorem startsWith_gh {path embedded : Text} (some' : path ≠ []) (address : ['h', 't'] <+: lowerAscii embedded)
    (other : startsWith path (chars "/gh/") = false) : startsWith (path ++ embedded) (chars "/gh/") = false := by
  obtain ⟨rest, same⟩ := address
  obtain ⟨first, second, rest, rfl, h, t⟩ : ∃ first second rest, embedded = first :: second :: rest ∧
      first.toLower = 'h' ∧ second.toLower = 't' := by
    rcases embedded with _ | ⟨first, _ | ⟨second, rest⟩⟩
    · cases same
    · simp [lowerAscii] at same
    · simp only [lowerAscii, List.map_cons, List.cons_append, List.cons.injEq] at same
      exact ⟨first, second, rest, rfl, same.1.symm, same.2.1.symm⟩
  have unlike : first ≠ 'g' ∧ first ≠ '/' ∧ second ≠ '/' := by
    refine ⟨?_, ?_, ?_⟩ <;> rintro rfl
    · cases h
    · cases h
    · cases t
  match path with
  | [] => exact absurd rfl some'
  | [a] => simp [startsWith, chars, List.isPrefixOf, Ne.symm unlike.1]
  | [a, b] => simp [startsWith, chars, List.isPrefixOf, Ne.symm unlike.2.2]
  | [a, b, c] => simp [startsWith, chars, List.isPrefixOf, Ne.symm unlike.2.1]
  | a :: b :: c :: d :: more => simpa [startsWith, chars, List.isPrefixOf] using other

theorem jsdelivrGhPath_starts (converted : jsdelivrGhPath url ≠ []) : chars "gh/" <+: jsdelivrGhPath url := by
  revert converted
  rw [jsdelivrGhPath]
  dsimp only
  split
  next => exact fun none' => absurd rfl none'
  next =>
    split
    next =>
      split
      next => exact fun _ => ⟨_, by simp only [List.append_assoc]; rfl⟩
      next =>
        split
        next => exact fun none' => absurd rfl none'
        next =>
          split
          next => exact fun _ => ⟨_, by simp only [List.append_assoc]; rfl⟩
          next => exact fun none' => absurd rfl none'
    next => exact fun none' => absurd rfl none'

theorem not_github_of_jsdelivr {host : Text} (jsdelivr : isJsdelivrHost host = true) : isGitHubHost host = false := by
  have apart : ∀ host ∈ ["cdn.jsdelivr.net", "fastly.jsdelivr.net", "testingcf.jsdelivr.net", "gcore.jsdelivr.net"].map chars,
      isGitHubHost host = false := by decide
  exact apart host (of_decide_eq_true jsdelivr)

theorem infer_jsdelivr (valid : (parseUrl proxy).valid = true) (host : isJsdelivrHost (parseUrl proxy).host = true)
    (root : proxy = (parseUrl proxy).scheme ++ chars "://" ++ (parseUrl proxy).authority ++ ['/'])
    (converted : jsdelivrGhPath url ≠ []) : inferGitHubProxyPrefixFromConfigUrl (proxy ++ jsdelivrGhPath url) = proxy := by
  obtain ⟨scheme, origin, lower, same, split, -⟩ := parseUrl_path valid
  have path : (parseUrl proxy).path = ['/'] := by
    have size : origin.length = ((parseUrl proxy).scheme ++ chars "://" ++ (parseUrl proxy).authority).length := by
      rw [same, ← lower]
      simp [lowerAscii]
    exact (List.append_inj (split.symm.trans root) size).2
  have starts : startsWith ((parseUrl proxy).path ++ jsdelivrGhPath url) (chars "/gh/") = true := by
    rw [path, startsWith, List.isPrefixOf_iff_prefix]
    exact List.cons_prefix_cons.mpr ⟨rfl, jsdelivrGhPath_starts converted⟩
  rw [inferGitHubProxyPrefixFromConfigUrl, parseUrl_append valid (by rw [path]; exact List.cons_ne_nil _ _)]
  dsimp only
  rw [valid, not_github_of_jsdelivr host, if_neg (by simp), if_pos ⟨host, starts⟩, ← root]

theorem infer_github (github : IsGitHubAddress url) : inferGitHubProxyPrefixFromConfigUrl url = [] := by
  rw [inferGitHubProxyPrefixFromConfigUrl]
  exact if_pos (.inr github.parse.2)

theorem Site.infer_raw (site : Site front) (github : IsGitHubAddress url) (elsewhere : isJsdelivrHost (parseUrl front).host = false)
    (earlier : ∀ marker ∈ rawMarkers.takeWhile fun marker => !marker.isPrefixOf (lowerAscii url), ¬marker <:+: lowerAscii url) :
    inferGitHubProxyPrefixFromConfigUrl (front ++ url) = normalizeProxyPrefix front := by
  rw [site.infer (by simp [elsewhere]), markerPlace_front addressed_markers.1 site.clean github earlier]
  dsimp only
  rw [site.take]

theorem Site.infer_encoded (site : Site front) (github : IsGitHubAddress url)
    (elsewhere : isJsdelivrHost (parseUrl front).host = true → startsWith (parseUrl front).path (chars "/gh/") = false)
    (clean : ∀ marker ∈ encodedMarkers, ¬marker <:+: lowerAscii (parseUrl front).path.tail)
    (earlier : ∀ marker ∈ encodedMarkers.takeWhile fun marker => !marker.isPrefixOf (lowerAscii (urlEncode url)),
      ¬marker <:+: lowerAscii (urlEncode url)) :
    inferGitHubProxyPrefixFromConfigUrl (front ++ urlEncode url) = normalizeProxyPrefix (front ++ encodedUrlHole) := by
  have address : ['h', 't'] <+: lowerAscii (urlEncode url) := by
    obtain ⟨marker, there, starts⟩ := github.encoded
    exact (addressed_markers.2 marker there).starts.trans starts
  have apart : ¬(isJsdelivrHost (parseUrl front).host ∧
      startsWith ((parseUrl front).path ++ urlEncode url) (chars "/gh/") = true) := by
    rintro ⟨host, starts⟩
    rw [startsWith_gh site.path address (elsewhere host)] at starts
    cases starts
  have last : ∀ marker ∈ rawMarkers, marker.getLast? = some '/' := by decide
  rw [site.infer apart, markerPlace_none addressed_markers.1 site.clean last (slash_not_mem_urlEncode url),
    markerPlace_front addressed_markers.2 clean github.encoded earlier]
  dsimp only
  rw [site.take]

theorem inherited (github : IsGitHubAddress url) (recoverable : Recoverable (normalizeProxyPrefix proxy) url other) :
    applyGitHubProxyToUrl other (inferGitHubProxyPrefixFromConfigUrl (applyGitHubProxyToUrl url proxy)) =
      applyGitHubProxyToUrl other proxy := by
  have known : isGitHubUrl url = true := by
    rw [isGitHubUrl, github.parse.1, github.parse.2]
    rfl
  cases target : isGitHubUrl other with
  | false => rw [apply_other target, apply_other target]
  | true =>
    have normal := normalize_of_normal (normal_normalize proxy)
    have trimmed := normal_normalize proxy
    rw [← apply_normalize url proxy, ← apply_normalize other proxy]
    generalize normalizeProxyPrefix proxy = proxy at recoverable normal trimmed
    cases recoverable with
    | blank empty => rw [empty, apply_blank url, infer_github github]
    | embedded front hole holes whole site plain closed encoded =>
      subst whole
      have some' : front ≠ [] := by
        rintro rfl
        exact absurd site.valid (by decide)
      simp only [List.mem_cons, List.not_mem_nil, or_false] at holes
      rcases holes with rfl | rfl | rfl
      · obtain ⟨-, elsewhere, earlier⟩ := closed (by decide)
        rw [List.append_nil] at normal ⊢
        rw [apply_bare normal some' known plain, if_neg (by simp [elsewhere]), site.infer_raw github elsewhere earlier, normal]
      · obtain ⟨slash, elsewhere, earlier⟩ := closed (by decide)
        have kept := normalize_front trimmed slash
        rw [apply_urlHole normal known plain, site.infer_raw github elsewhere earlier, kept, apply_bare kept some' target plain,
          if_neg (by simp [elsewhere]), apply_urlHole normal target plain]
      · obtain ⟨elsewhere, clean, earlier⟩ := encoded rfl
        rw [apply_encodedUrlHole normal known plain, site.infer_encoded github elsewhere clean earlier, normal]
    | jsdelivr valid host plain root converted =>
      have some' : proxy ≠ [] := by
        rintro rfl
        exact absurd valid (by decide)
      rw [apply_bare normal some' known plain, if_pos ⟨valid, host⟩, if_neg converted, infer_jsdelivr valid host root converted]
    | unconverted valid host plain bare bare' =>
      have some' : proxy ≠ [] := by
        rintro rfl
        exact absurd valid (by decide)
      rw [apply_bare normal some' known plain, if_pos ⟨valid, host⟩, if_pos bare, infer_github github, apply_blank,
        apply_bare normal some' target plain, if_pos ⟨valid, host⟩, if_pos bare']

theorem inherited_plain :
    applyGitHubProxyToUrl (chars "https://github.com/A/B/raw/main/c.list") (inferGitHubProxyPrefixFromConfigUrl
        (applyGitHubProxyToUrl (chars "https://raw.githubusercontent.com/A/B/main/c.ini") (chars "https://gh-proxy.com"))) =
      applyGitHubProxyToUrl (chars "https://github.com/A/B/raw/main/c.list") (chars "https://gh-proxy.com") := by
  have normalized : normalizeProxyPrefix (chars "https://gh-proxy.com") = chars "https://gh-proxy.com/" := by decide
  refine inherited ⟨chars "https://raw.githubusercontent.com/", by decide, by decide⟩ ?_
  rw [normalized]
  exact .embedded (chars "https://gh-proxy.com/") [] (by decide) (List.append_nil _).symm
    ⟨by decide, by decide, by decide, by decide⟩ (by decide)
    (fun _ => ⟨by decide, by decide, by decide⟩) (fun same => absurd same (by decide))

theorem not_inherited :
    (applyGitHubProxyToUrl (chars "https://github.com/A/B/raw/main/c.list") (inferGitHubProxyPrefixFromConfigUrl
        (applyGitHubProxyToUrl (chars "https://raw.githubusercontent.com/A/B/main/c.ini") (chars "gh-proxy.com"))) =
          chars "https://github.com/A/B/raw/main/c.list" ∧
      applyGitHubProxyToUrl (chars "https://github.com/A/B/raw/main/c.list") (chars "gh-proxy.com") =
        chars "gh-proxy.com/https://github.com/A/B/raw/main/c.list") ∧
    applyGitHubProxyToUrl (chars "https://github.com/A/B/raw/main/c.list") (inferGitHubProxyPrefixFromConfigUrl
        (applyGitHubProxyToUrl (chars "https://raw.githubusercontent.com/A/B/main/c.ini")
          (chars "https://p.example/?u=\x7bencodedUrl\x7d&raw=1"))) ≠
      applyGitHubProxyToUrl (chars "https://github.com/A/B/raw/main/c.list") (chars "https://p.example/?u=\x7bencodedUrl\x7d&raw=1") := by
  decide

end Inheriting

end SubConverter.Handler.GithubProxy
