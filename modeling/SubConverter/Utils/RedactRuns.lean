import SubConverter.Utils.RedactLoops

set_option autoImplicit false

namespace SubConverter.Utils.RedactLoops

open Handler (toLower startsWith)
open Redact (isUrlTerminator isLineBreak sensitiveParameter structuredKeyCharacter endsParameter replacement structuredKey
  insideStructuredContainerOnLine headerBoundary headerNames userMarker urlSchemes
  namedParameterAt headerAt structuredFieldAt curlAuthUserAt urlAt)
open Loops
open Places

section Texts

variable {text : Text} {place : Nat}

theorem find_first (text : Text) (position : Nat) (character : Char) :
    FirstFrom (fun place => text[place]? = some character) position (find text position character) := by
  have first := findFrom_first (fun behind => decide (behind.head? = some character)) text position
  have same : (fun place => place < text.length ∧ decide ((text.drop place).head? = some character) = true) =
      fun place => text[place]? = some character := by
    funext place
    rw [decide_eq_true_eq, List.head?_drop, eq_iff_iff]
    exact ⟨And.right, fun there => ⟨lt_of_get there, there⟩⟩
  rwa [same] at first

theorem replaced {count : Nat} {part : Text} {α : Type} {next : Text → Fueled α} {last : α} (inside : place ≤ text.length)
    (later : Halts (next (text.take place ++ part ++ text.drop (place + count))) last) :
    Halts (liftM (replaceAt text place count part) >>= next) last :=
  Halts.bind (Halts.lift (if_pos inside)) later

theorem misses_here {rule : Rewriting.Rule Char} {stop : Nat} (misses : Misses rule text place stop)
    (here : rule (text.take stop) (text.drop stop) = none) : Misses rule text place (stop + 1) := by
  intro other after less
  rcases Nat.lt_succ_iff_lt_or_eq.mp less with less | rfl
  · exact misses other after less
  · exact here

end Texts

section Parameters

theorem namedParameterAt_miss {text : Text} {place : Nat} (other : text[place]? ≠ some '=') :
    namedParameterAt (text.take place) (text.drop place) = none := by
  cases rest : text.drop place with
  | nil => rfl
  | cons c more =>
    have here : c ≠ '=' := by
      rintro rfl
      rw [← List.head?_drop, rest] at other
      exact other rfl
    rw [Redact.namedParameterAt_cons, if_neg fun both => here both.1]

theorem nextParameter_passes (text : Text) {place : Nat} :
    Passes namedParameterAt (fun s text place => s = ⟨text, place⟩) nextParameter ⟨text, place⟩ text place := by
  have first := find_first text place '='
  cases found : find text place '=' with
  | none =>
    rw [found] at first
    refine .ends (fun other behind _ => namedParameterAt_miss (first other behind)) ?_
    rw [nextParameter]
    simp only [found]
    exact Halts.pure _
  | some equals =>
    rw [found] at first
    obtain ⟨behind, there, before⟩ := first
    have inside := lt_of_get there
    have misses : Misses namedParameterAt text place equals := fun other after less => namedParameterAt_miss (before other after less)
    by_cases sensitive : sensitiveParameter ((text.take equals).rtakeWhile structuredKeyCharacter) = true
    · have applies : namedParameterAt (text.take equals) (text.drop equals) =
          some ('=' :: replacement, (text.drop (equals + 1)).dropWhile fun c => !endsParameter c) := by
        rw [drop_eq_cons there, Redact.namedParameterAt_cons, if_pos ⟨rfl, sensitive⟩]
      refine .hits ⟨_, equals + (replacement.length + 1)⟩ behind inside misses applies ?_ rfl
      rw [nextParameter]
      simp only [found, sensitive, Bool.not_true, Bool.false_eq_true, if_false]
      refine replaced inside ?_
      rw [Cursor.drop_takeWhile, take_succ there, List.append_assoc _ ['=']]
      exact Halts.pure _
    · have miss : namedParameterAt (text.take equals) (text.drop equals) = none := by
        rw [drop_eq_cons there, Redact.namedParameterAt_cons, if_neg fun both => sensitive both.2]
      refine .goes ⟨text, equals + 1⟩ (Nat.lt_succ_of_le behind) inside (misses_here misses miss) ?_ rfl
      rw [nextParameter]
      simp only [found, sensitive, Bool.not_false, if_true]
      exact Halts.pure _

theorem redactNamedParameters_ends (text : Text) : Halts (redactNamedParameters text) (Redact.redactNamedParameters text) := by
  refine loop_rewrites_text (fun s text place => s = ⟨text, place⟩) Redact.advances_parameter ?_ rfl
  rintro s text place - rfl
  exact nextParameter_passes text

end Parameters

section Users

theorem toLower_splice (text : Text) (place count : Nat) (part : Text) :
    toLower (text.take place ++ part ++ text.drop (place + count)) =
      (toLower text).take place ++ toLower part ++ (toLower text).drop (place + count) := by
  simp [toLower, List.map_take, List.map_drop]

theorem length_toLower (text : Text) : (toLower text).length = text.length := List.length_map _

theorem drop_toLower (text : Text) (place : Nat) : (toLower text).drop place = toLower (text.drop place) := List.map_drop.symm

theorem replaced_lower {text part lower : Text} {place count : Nat} {α : Type} {next : Text → Fueled α} {last : α}
    (inside : place ≤ text.length) (same : toLower part = lower)
    (later : Halts (next (toLower (text.take place ++ part ++ text.drop (place + count)))) last) :
    Halts (liftM (replaceAt (toLower text) place count lower) >>= next) last := by
  rw [toLower_splice, same] at later
  exact replaced (by rwa [length_toLower]) later

theorem findText_first (text : Text) (position : Nat) (part : Text) :
    FirstFrom (fun place => place < text.length ∧ startsWith (toLower (text.drop place)) part = true) position
      (findText (toLower text) position part) := by
  have first := findFrom_first (fun behind => part.isPrefixOf behind) (toLower text) position
  simp only [length_toLower, drop_toLower] at first
  exact first

variable {text : Text} {place : Nat}

theorem curlAuthUserAt_miss {before rest : Text} (other : startsWith (toLower rest) userMarker ≠ true) :
    curlAuthUserAt before rest = none := if_neg other

theorem rfind_marked (front more : Text) {back : Text} {quote : Char} (absent : quote ∉ back) :
    rfind (front ++ quote :: back ++ more) ((front ++ quote :: back).length - 1) quote = some front.length := by
  have positive : (front ++ quote :: back).length - 1 + 1 = (front ++ quote :: back).length := by
    rw [List.length_append, List.length_cons]
    omega
  rw [rfind, positive, List.take_left, lastIdxOf_marked front absent]

theorem rfind_get {position : Nat} {quote : Char} (found : rfind text position quote = some place) :
    place ≤ position ∧ text[place]? = some quote := by
  have there := lastIdxOf_get found
  rw [List.getElem?_take] at there
  split at there
  next less => exact ⟨Nat.le_of_lt_succ less, there⟩
  next => cases there

theorem curlAuthUserAt_hit (before : Text) {rest value : Text} (starts : startsWith (toLower rest) userMarker = true)
    (behind : rest.drop userMarker.length = value) :
    ∃ size ≤ value.length, ((cutAt userMarker (toLower value)).map fun parts => parts.1.length).getD value.length = size ∧
      curlAuthUserAt before rest = some (rest.take userMarker.length ++ replacement,
        if '\'' ∈ value.take size then '\'' :: (value.take size).rtakeWhile (fun c => c ≠ '\'') ++ value.drop size
        else value.drop size) := by
  rw [curlAuthUserAt, if_pos starts]
  dsimp only
  rw [behind]
  cases cut : cutAt userMarker (toLower value) with
  | none =>
    refine ⟨value.length, le_rfl, rfl, ?_⟩
    rw [List.take_length]
  | some parts =>
    obtain ⟨inside, later⟩ := parts
    have whole := congrArg List.length (eq_of_cutAt cut)
    rw [length_toLower, List.length_append, List.length_append] at whole
    have short : inside.length ≤ value.length := by omega
    refine ⟨inside.length, short, rfl, ?_⟩
    dsimp only
    rw [List.length_take, Nat.min_eq_left short]

theorem authUser_end (text : Text) {start size : Nat} (positive : 0 < start) (inside : start + size ≤ text.length) :
    ∃ stop, ((rfind text (start + size - 1) '\'').filter fun place => start ≤ place).getD (start + size) = stop ∧ start ≤ stop ∧
      text.drop stop = if '\'' ∈ (text.drop start).take size then
          '\'' :: ((text.drop start).take size).rtakeWhile (fun c => c ≠ '\'') ++ (text.drop start).drop size
        else (text.drop start).drop size := by
  by_cases quoted : '\'' ∈ (text.drop start).take size
  · obtain ⟨back, front, reversed, last⟩ := List.eq_append_cons_of_mem (List.mem_reverse.mpr quoted)
    have scope : (text.drop start).take size = front.reverse ++ '\'' :: back.reverse := by
      rw [← List.reverse_reverse ((text.drop start).take size), reversed]
      simp
    have absent : '\'' ∉ back.reverse := mt List.mem_reverse.mp last
    have whole : text = (text.take start ++ front.reverse) ++ '\'' :: back.reverse ++ (text.drop start).drop size := by
      rw [List.append_assoc (text.take start), ← scope, List.append_assoc, List.take_append_drop, List.take_append_drop]
    have length : ((text.take start ++ front.reverse) ++ '\'' :: back.reverse).length = start + size := by
      rw [List.append_assoc, ← scope, List.length_append, List.length_take, List.length_take, List.length_drop]
      omega
    have place : (text.take start ++ front.reverse).length = start + front.length := by
      rw [List.length_append, List.length_take, List.length_reverse, Nat.min_eq_left (by omega)]
    have found := rfind_marked (text.take start ++ front.reverse) ((text.drop start).drop size) absent
    rw [← whole, length, place] at found
    refine ⟨start + front.length, ?_, Nat.le_add_right _ _, ?_⟩
    · have after : decide (start ≤ start + front.length) = true := decide_eq_true (Nat.le_add_right _ _)
      rw [found, Option.filter_some, if_pos after, Option.getD_some]
    · have all : ∀ c ∈ back.reverse, decide (c ≠ '\'') = true := fun c there => decide_eq_true fun same => absent (same ▸ there)
      have run : (front.reverse ++ '\'' :: back.reverse).rtakeWhile (fun c => c ≠ '\'') = back.reverse := by
        rw [List.append_cons, Redact.rtakeWhile_append_of_all _ all, List.rtakeWhile_concat_neg _ _ _ (by simp),
          List.nil_append]
      rw [if_pos quoted, scope, run]
      conv_lhs => rw [whole, ← place, List.append_assoc, List.drop_left]
  · refine ⟨start + size, ?_, Nat.le_add_right _ _, ?_⟩
    · cases found : rfind text (start + size - 1) '\'' with
      | none => rfl
      | some place =>
        obtain ⟨before, there⟩ := rfind_get found
        have outside : ¬start ≤ place := by
          intro behind
          refine quoted (List.mem_iff_getElem?.mpr ⟨place - start, ?_⟩)
          rw [List.getElem?_take, if_pos (by omega), List.getElem?_drop, Nat.add_sub_cancel' behind, there]
        rw [Option.filter_some, if_neg (by simpa using outside), Option.getD_none]
    · rw [if_neg quoted, List.drop_drop]

theorem nextAuthUser_passes (text : Text) {place : Nat} :
    Passes curlAuthUserAt (fun s text place => s = ⟨text, toLower text, place⟩) nextAuthUser ⟨text, toLower text, place⟩ text
      place := by
  have first := findText_first text place userMarker
  cases found : findText (toLower text) place userMarker with
  | none =>
    rw [found] at first
    refine .ends (fun other behind less => curlAuthUserAt_miss fun starts => first other behind ⟨less, starts⟩) ?_
    rw [nextAuthUser]
    simp only [found]
    exact Halts.pure _
  | some markerStart =>
    rw [found] at first
    obtain ⟨behind, ⟨inside, starts⟩, before⟩ := first
    have misses : Misses curlAuthUserAt text place markerStart := fun other after less =>
      curlAuthUserAt_miss fun starts => before other after less ⟨less.trans inside, starts⟩
    have fits : markerStart + userMarker.length ≤ text.length := by
      have length := (List.isPrefixOf_iff_prefix.mp starts).length_le
      rw [length_toLower, List.length_drop] at length
      omega
    obtain ⟨size, short, scope, applies⟩ := curlAuthUserAt_hit (text.take markerStart) starts
      (List.drop_drop : _ = text.drop (markerStart + userMarker.length))
    have positive : 0 < markerStart + userMarker.length := Nat.lt_of_lt_of_le (by decide) (Nat.le_add_left userMarker.length markerStart)
    rw [List.length_drop] at short
    obtain ⟨stop, last, order, left⟩ := authUser_end text positive (show markerStart + userMarker.length + size ≤ text.length by omega)
    have scopeEnd : (findText (toLower text) (markerStart + userMarker.length) userMarker).getD text.length =
        markerStart + userMarker.length + size := by
      rw [findText, findFrom_part (by decide), drop_toLower, ← scope]
      cases cutAt userMarker (toLower (text.drop (markerStart + userMarker.length))) with
      | none => simp [Nat.add_sub_cancel' fits]
      | some parts => rfl
    have some' : markerStart + userMarker.length + size ≠ 0 := by omega
    have spliced : text.take (markerStart + userMarker.length) ++ replacement ++
        text.drop (markerStart + userMarker.length + (stop - (markerStart + userMarker.length))) =
        text.take markerStart ++ ((text.drop markerStart).take userMarker.length ++ replacement) ++ text.drop stop := by
      rw [List.take_add, Nat.add_sub_cancel' order, List.append_assoc (text.take markerStart)]
    rw [← left] at applies
    refine .hits ⟨_, toLower _, _⟩ behind inside misses applies ?_ rfl
    rw [nextAuthUser]
    simp only [found, scopeEnd, if_neg some', last]
    refine replaced fits (replaced_lower fits (show toLower replacement = replacement by decide) ?_)
    rw [spliced, List.length_append, List.length_take, List.length_drop, Nat.min_eq_left (by omega), ← Nat.add_assoc]
    exact Halts.pure _

theorem advances_auth_user : Rewriting.Advances curlAuthUserAt where
  within := by
    intro before rest out left c hit
    by_cases starts : startsWith (toLower (c :: rest)) userMarker = true
    · obtain ⟨size, short, -, applies⟩ := curlAuthUserAt_hit before starts rfl
      have fits := (List.isPrefixOf_iff_prefix.mp starts).length_le
      have positive : 0 < userMarker.length := by decide
      rw [length_toLower] at fits
      rw [List.length_drop] at short
      obtain ⟨stop, -, order, same⟩ := authUser_end (c :: rest) positive (show userMarker.length + size ≤ _ by omega)
      rw [applies, ← same, Option.some.injEq, Prod.mk.injEq] at hit
      obtain ⟨-, rfl⟩ := hit
      obtain ⟨more, rfl⟩ := Nat.exists_eq_succ_of_ne_zero (Nat.ne_of_gt (positive.trans_le order))
      exact List.drop_suffix more rest
    · rw [curlAuthUserAt_miss starts] at hit
      cases hit

theorem redactCurlAuthUser_ends (text : Text) : Halts (redactCurlAuthUser text) (Redact.redactCurlAuthUser text) := by
  refine loop_rewrites_text (fun s text place => s = ⟨text, toLower text, place⟩) advances_auth_user ?_ rfl
  rintro s text place - rfl
  exact nextAuthUser_passes text

end Users

section Nearest

variable {Holds : Text → Nat → Bool} {start : Nat} {seen : List Text} {best : Option (Nat × Text)} {name : Text}

def Nearest (Holds : Text → Nat → Bool) (start : Nat) (seen : List Text) : Option (Nat × Text) → Prop
  | none => ∀ place, start ≤ place → ∀ name ∈ seen, Holds name place = false
  | some found => start ≤ found.1 ∧ seen.find? (fun name => Holds name found.1) = some found.2 ∧
      ∀ place, start ≤ place → place < found.1 → ∀ name ∈ seen, Holds name place = false

theorem nearest_nothing (Holds : Text → Nat → Bool) (start : Nat) : Nearest Holds start [] none := by
  intro place _ name there
  cases there

theorem find_new {place : Nat} (unseen : ∀ name ∈ seen, Holds name place = false) (here : Holds name place = true) :
    (seen ++ [name]).find? (fun name => Holds name place) = some name := by
  have none' : seen.find? (fun name => Holds name place) = none := by simpa using unseen
  rw [List.find?_append, none', Option.none_or]
  exact List.find?_singleton.trans (if_pos here)

theorem nearest_kept (kept : Nearest Holds start seen best) {candidate : Option Nat}
    (found : FirstFrom (fun place => Holds name place = true) start candidate) :
    Nearest Holds start (seen ++ [name]) (nearest best name candidate) := by
  have both {place : Nat} (unseen : ∀ name ∈ seen, Holds name place = false) (elsewhere : ¬Holds name place = true) :
      ∀ other ∈ seen ++ [name], Holds other place = false := by
    rw [List.forall_mem_append, List.forall_mem_singleton]
    exact ⟨unseen, Bool.not_eq_true _ ▸ elsewhere⟩
  cases candidate with
  | none =>
    rw [nearest]
    cases best with
    | none => exact fun place behind => both (kept place behind) (found place behind)
    | some held =>
      obtain ⟨behind, named, before⟩ := kept
      refine ⟨behind, by rw [List.find?_append, named, Option.some_or], fun place after less => ?_⟩
      exact both (before place after less) (found place after)
  | some place =>
    obtain ⟨behind, here, before⟩ := found
    rw [nearest]
    split
    next nearer =>
      have unseen (earlier : Nat) (after : start ≤ earlier) (less : earlier ≤ place) : ∀ name ∈ seen, Holds name earlier = false := by
        cases best with
        | none => exact kept earlier after
        | some held => exact kept.2.2 earlier after (less.trans_lt (by simpa using nearer))
      exact ⟨behind, find_new (unseen place behind le_rfl) here,
        fun earlier after less => both (unseen earlier after less.le) (before earlier after less)⟩
    next farther =>
      cases best with
      | none => exact absurd rfl farther
      | some held =>
        obtain ⟨behind', named, before'⟩ := kept
        have order : held.1 ≤ place := by simpa using farther
        refine ⟨behind', by rw [List.find?_append, named, Option.some_or], fun earlier after less => ?_⟩
        exact both (before' earlier after less) (before earlier after (less.trans_le order))

end Nearest

section Urls

theorem redactUrl_ends (url : Text) : Halts (redactUrl url) (Redact.redactUrl url) := by
  rw [redactUrl, Redact.redactUrl]
  by_cases opaque' : Redact.opaqueSecretScheme (Redact.urlScheme url) = true
  · simp only [opaque', if_true]
    exact Halts.pure _
  · simp only [opaque', if_false, Bool.false_eq_true]
    cases cutAt (chars "://") url with
    | none => exact redactNamedParameters_ends url
    | some parts =>
      obtain ⟨front, behind⟩ := parts
      dsimp only
      split
      next => exact Halts.pure _
      next =>
        cases cutAt ['?'] ((Redact.withoutUserinfo front behind).1 ++ (Redact.withoutUserinfo front behind).2) with
        | none => exact Halts.pure _
        | some parts => exact redactNamedParameters_ends _

theorem scheme_letters : (urlSchemes.all fun scheme => scheme.head?.any fun c => !isUrlTerminator c) = true := by decide

theorem terminator_mark : (['\x00', '\'', '"', '<', '>', '\r', '\n', ' ', '\t'].all fun c => !c.isAlphanum) = true := by decide

theorem urlAt_first {c : Char} {rest : Text} (starts : (urlSchemes.any fun scheme => startsWith (toLower (c :: rest)) scheme) = true) :
    isUrlTerminator c = false := by
  obtain ⟨scheme, listed, begins⟩ := List.any_eq_true.mp starts
  have letter := List.all_eq_true.mp scheme_letters scheme listed
  cases scheme with
  | nil => cases letter
  | cons first more =>
    have same : first = c.toLower := (List.cons_prefix_cons.mp (List.isPrefixOf_iff_prefix.mp begins)).1
    by_contra ends
    have among : c ∈ ['\x00', '\'', '"', '<', '>', '\r', '\n', ' ', '\t'] := by
      simpa only [isUrlTerminator, Bool.not_eq_false, decide_eq_true_eq] using ends
    have mark : c.isAlphanum = false := by simpa using List.all_eq_true.mp terminator_mark c among
    rw [List.head?_cons, Option.any_some, same, toLower_of_not_alphanum mark] at letter
    exact ends (by simpa using letter)

theorem advances_url : Rewriting.Advances urlAt where
  within := by
    intro before rest out left c hit
    rw [urlAt, Option.ite_none_right_eq_some, Option.some.injEq, Prod.mk.injEq] at hit
    obtain ⟨starts, -, rfl⟩ := hit
    have plain := urlAt_first starts
    rw [List.dropWhile_cons_of_pos (by rw [plain]; rfl)]
    exact List.dropWhile_suffix _

theorem nearest_scheme (text : Text) (place : Nat) (seen : List Text) :
    Nearest (fun scheme place => decide (place < text.length) && startsWith (toLower (text.drop place)) scheme) place seen
      (seen.foldl (fun best scheme => nearest best scheme (findText (toLower text) place scheme)) none) := by
  induction seen using List.reverseRecOn with
  | nil => exact nearest_nothing _ _
  | append_singleton seen scheme ih =>
    rw [List.foldl_append]
    refine nearest_kept ih ?_
    simp only [Bool.and_eq_true, decide_eq_true_eq]
    exact findText_first text place scheme

theorem nextUrl_passes (text : Text) {place : Nat} :
    Passes urlAt (fun s text place => s = ⟨text, toLower text, place⟩) nextUrl ⟨text, toLower text, place⟩ text place := by
  have misses {stop : Nat} (inside : stop ≤ text.length) (none' : ∀ other, place ≤ other → other < stop → ∀ scheme ∈ urlSchemes,
      (decide (other < text.length) && startsWith (toLower (text.drop other)) scheme) = false) : Misses urlAt text place stop := by
    intro other behind less
    refine if_neg ?_
    simpa [less.trans_le inside] using none' other behind less
  by_cases behind' : text.length ≤ place
  · refine .ends (fun other behind less => absurd less (by omega)) ?_
    rw [nextUrl, if_pos behind']
    exact Halts.pure _
  · have near := nearest_scheme text place urlSchemes
    cases found : urlSchemes.foldl (fun best scheme => nearest best scheme (findText (toLower text) place scheme)) none with
    | none =>
      rw [found] at near
      refine .ends (misses le_rfl fun other behind _ => near other behind) ?_
      rw [nextUrl, if_neg behind']
      simp only [found]
      exact Halts.pure _
    | some best =>
      rw [found] at near
      obtain ⟨behind, named, before⟩ := near
      have here := List.find?_some named
      simp only [Bool.and_eq_true, decide_eq_true_eq] at here
      have inside := here.1
      have starts : (urlSchemes.any fun scheme => startsWith (toLower (text.drop best.1)) scheme) = true :=
        List.any_eq_true.mpr ⟨best.2, List.mem_of_find?_eq_some named, here.2⟩
      refine .hits ⟨_, toLower _, _⟩ behind inside (misses inside.le before) (if_pos starts) ?_ rfl
      rw [nextUrl, if_neg behind']
      simp only [found]
      refine Halts.bind (redactUrl_ends _) (replaced inside.le (replaced_lower inside.le rfl ?_))
      rw [Cursor.drop_takeWhile]
      exact Halts.pure _

end Urls

section Headers

theorem isAlphanum_toLower (c : Char) : c.toLower.isAlphanum = c.isAlphanum := by
  cases upper : c.isUpper with
  | false => rw [toLower_of_not_isUpper upper]
  | true => simp [Char.isAlphanum, Char.isAlpha, upper, isLower_of_isUpper upper]

theorem headerBoundary_toLower (before : Text) : headerBoundary (toLower before) = headerBoundary before := by
  rw [headerBoundary, headerBoundary, toLower, List.getLast?_map]
  cases before.getLast? with
  | none => rfl
  | some c =>
    have mark {other : Char} (plain : other.isAlphanum = false) : decide (c.toLower ≠ other) = decide (c ≠ other) := by
      refine decide_eq_decide.mpr (not_congr ⟨eq_of_toLower plain, ?_⟩)
      rintro rfl
      exact toLower_of_not_alphanum plain
    rw [Option.map_some]
    simp only [isAlphanum_toLower, mark (show '_'.isAlphanum = false by decide), mark (show '-'.isAlphanum = false by decide)]

def headerHere (text name : Text) (place : Nat) : Bool :=
  (decide (place < text.length) && startsWith (toLower (text.drop place)) (name ++ [':'])) &&
    (headerBoundary (text.take place) && !insideStructuredContainerOnLine (text.take place))

theorem candidate_ends (text name : Text) (start : Nat) :
    ∃ found, Halts (loop (nextCandidate text (toLower text) name) (findText (toLower text) start (name ++ [':']))) found ∧
      FirstFrom (fun place => headerHere text name place = true) start found := by
  have lower (place : Nat) : headerBoundary ((toLower text).take place) = headerBoundary (text.take place) := by
    rw [toLower, ← List.map_take]
    exact headerBoundary_toLower _
  simp only [headerHere, Bool.and_eq_true, decide_eq_true_eq]
  refine search_ends (fun start => loop (nextCandidate text (toLower text) name) (findText (toLower text) start (name ++ [':'])))
    (fun place there => there.1) (fun start => findText_first text start (name ++ [':'])) ?_ ?_ ?_ start
  · intro start nothing
    rw [nothing]
    exact Halts.loop_done (Halts.pure _)
  · intro start place found valid
    rw [found]
    refine Halts.loop_done ?_
    rw [nextCandidate, lower, if_pos valid]
    exact Halts.pure _
  · intro start place result found invalid later
    rw [found]
    refine Halts.loop_again ?_ later
    rw [nextCandidate, lower, if_neg invalid]
    exact Halts.pure _

theorem header_ends (text : Text) (place : Nat) :
    ∃ header, Halts (headerNames.foldlM
        (fun best name => do
          let candidate ← loop (nextCandidate text (toLower text) name) (findText (toLower text) place (name ++ [':']))
          pure (nearest best name candidate))
        none) header ∧
      Nearest (headerHere text) place headerNames header := by
  refine Halts.foldlM (Nearest (headerHere text) place) ?_ (nearest_nothing _ _)
  intro seen best name kept
  obtain ⟨candidate, ends, first⟩ := candidate_ends text name place
  exact ⟨_, Halts.bind ends (Halts.pure _), nearest_kept kept first⟩

theorem headerAt_miss {text : Text} {place : Nat} (inside : place < text.length)
    (none' : ∀ name ∈ headerNames, headerHere text name place = false) : headerAt (text.take place) (text.drop place) = none := by
  rw [headerAt]
  split
  next valid =>
    have nowhere : (headerNames.find? fun name => startsWith (toLower (text.drop place)) (name ++ [':'])) = none := by
      rw [List.find?_eq_none]
      intro name listed starts
      have fails := none' name listed
      rw [headerHere, starts, valid.1, valid.2, decide_eq_true inside] at fails
      cases fails
    rw [nowhere]
  next => rfl

theorem headerAt_hit {text name : Text} {place : Nat} (named : headerNames.find? (fun name => headerHere text name place) = some name) :
    place < text.length ∧ place + name.length + 1 ≤ text.length ∧
      headerAt (text.take place) (text.drop place) = some ((text.drop place).take (name.length + 1) ++ chars " <redacted>",
        Redact.headerValueEnd (text.drop (place + name.length + 1))) := by
  have here := List.find?_some named
  simp only [headerHere, Bool.and_eq_true, decide_eq_true_eq] at here
  obtain ⟨⟨inside, starts⟩, boundary, outside⟩ := here
  have same : (headerNames.find? fun name => startsWith (toLower (text.drop place)) (name ++ [':'])) = some name := by
    rw [← named]
    refine List.find?_congr fun other _ => ?_
    rw [headerHere, decide_eq_true inside, boundary, outside, Bool.and_self, Bool.and_true, Bool.true_and]
  have length := (List.isPrefixOf_iff_prefix.mp starts).length_le
  rw [length_toLower, List.length_append, List.length_singleton, List.length_drop] at length
  refine ⟨inside, by omega, ?_⟩
  rw [headerAt, if_pos ⟨boundary, outside⟩, same]
  dsimp only
  rw [List.drop_drop]
  rfl

def behindBreak (rest : Text) : Text :=
  let rest := if rest.head? = some '\r' then rest.tail else rest
  if rest.head? = some '\n' then rest.tail else rest

theorem headerValueEnd_break {b : Char} (breaks : isLineBreak b = true) (rest : Text) :
    Redact.headerValueEnd (b :: rest) =
      if (behindBreak (b :: rest)).head? = some ' ' ∨ (behindBreak (b :: rest)).head? = some '\t' then
        Redact.headerValueEnd (behindBreak (b :: rest))
      else b :: rest := by
  have either : b = '\r' ∨ b = '\n' := by simpa [isLineBreak] using breaks
  have blank {c : Char} {more : Text} (fold : c = ' ' ∨ c = '\t') : Redact.headerValueEnd (c :: more) = Redact.headerValueEnd more := by
    refine Redact.headerValueEnd_cons ?_ more
    rcases fold with rfl | rfl <;> decide
  rcases either with rfl | rfl
  · cases rest with
    | nil => rfl
    | cons c more =>
      by_cases newline : c = '\n'
      · subst newline
        cases more with
        | nil => rfl
        | cons d more =>
          simp only [behindBreak, List.head?_cons, List.tail_cons, if_true, Option.some.injEq]
          rw [Redact.headerValueEnd]
          split
          next fold => exact (blank fold).symm
          next => rfl
      · have crlf : ∀ (d : Char) (rest : Text), c = '\n' → more = d :: rest → False := fun _ _ same => absurd same newline
        simp only [behindBreak, List.head?_cons, List.tail_cons, if_true, Option.some.injEq, newline, if_false]
        rw [Redact.headerValueEnd]
        · split
          next fold => exact (blank fold).symm
          next => rfl
        · exact crlf
  · have plain : '\n' ≠ '\r' := by decide
    cases rest with
    | nil => rfl
    | cons c more =>
      simp only [behindBreak, List.head?_cons, List.tail_cons, if_true, Option.some.injEq, plain, if_false]
      rw [Redact.headerValueEnd]
      split
      next fold => exact (blank fold).symm
      next => rfl

theorem findLineBreak_first (text : Text) (start : Nat) :
    FirstFrom (fun place => ∃ c, text[place]? = some c ∧ isLineBreak c = true) start (findLineBreak text start) := by
  have first := findFrom_first (fun behind => behind.head?.any isLineBreak) text start
  have same : (fun place => place < text.length ∧ (text.drop place).head?.any isLineBreak = true) =
      fun place => ∃ c, text[place]? = some c ∧ isLineBreak c = true := by
    funext place
    rw [List.head?_drop, Option.any_eq_true, eq_iff_iff]
    exact ⟨And.right, fun there => ⟨lt_of_get there.choose_spec.1, there⟩⟩
  rwa [same] at first

theorem headerValueEnd_until {text : Text} {start stop : Nat} (order : start ≤ stop)
    (plain : ∀ place, start ≤ place → place < stop → ¬∃ c, text[place]? = some c ∧ isLineBreak c = true) :
    Redact.headerValueEnd (text.drop start) = Redact.headerValueEnd (text.drop stop) := by
  obtain ⟨part, whole, places⟩ := drop_between text order
  rw [whole]
  refine Redact.headerValueEnd_append ?_ _
  intro c there
  obtain ⟨place, behind, before, here⟩ := places c there
  by_contra breaks
  exact plain place behind before ⟨c, here, Bool.not_eq_false _ ▸ breaks⟩

theorem drop_skipMark (text : Text) (mark : Char) (place : Nat) :
    text.drop (skipMark text mark place) =
      if (text.drop place).head? = some mark then (text.drop place).tail else text.drop place := by
  rw [skipMark, List.head?_drop, List.tail_drop]
  split <;> rfl

theorem le_skipMark (text : Text) (mark : Char) (place : Nat) : place ≤ skipMark text mark place := by
  rw [skipMark]
  split <;> omega

theorem lt_skipMarks {text : Text} {place : Nat} (breaks : ∃ c, text[place]? = some c ∧ isLineBreak c = true) :
    place < skipMark text '\n' (skipMark text '\r' place) := by
  obtain ⟨c, there, breaks⟩ := breaks
  have either : c = '\r' ∨ c = '\n' := by simpa [isLineBreak] using breaks
  rcases either with rfl | rfl
  · have here : skipMark text '\r' place = place + 1 := if_pos there
    rw [here]
    exact le_skipMark text '\n' (place + 1)
  · have here : skipMark text '\r' place = place := if_neg (by simp [there])
    have next : skipMark text '\n' place = place + 1 := if_pos there
    rw [here, next]
    exact Nat.lt_succ_self place

structure Folding (text : Text) (start : Nat) (s : FoldedLines) : Prop where
  same : s.nextLine = s.valueEnd
  after : start ≤ s.valueEnd
  breaks : ∃ c, text[s.valueEnd]? = some c ∧ isLineBreak c = true
  value : Redact.headerValueEnd (text.drop s.valueEnd) = Redact.headerValueEnd (text.drop start)

theorem folded_ends (text : Text) {stop : Nat} (breaks : ∃ c, text[stop]? = some c ∧ isLineBreak c = true) :
    ∃ last, Halts (loop (nextFolded text) ⟨stop, stop⟩) last ∧ stop ≤ last ∧ last ≤ text.length ∧
      text.drop last = Redact.headerValueEnd (text.drop stop) := by
  have start : Folding text stop ⟨stop, stop⟩ := ⟨rfl, le_rfl, breaks, rfl⟩
  refine Halts.loop_keeps (fun s => text.length - s.valueEnd) (Folding text stop) _ ?_ start
  intro s kept
  obtain ⟨c, there, broken⟩ := kept.breaks
  have inside := lt_of_get there
  have behind : text.drop (skipMark text '\n' (skipMark text '\r' s.valueEnd)) = behindBreak (text.drop s.valueEnd) := by
    rw [drop_skipMark, drop_skipMark, behindBreak]
  have later := lt_skipMarks kept.breaks
  have value := headerValueEnd_break broken (text.drop (s.valueEnd + 1))
  rw [← drop_eq_cons there, ← behind, List.head?_drop, kept.value] at value
  by_cases folds : text[skipMark text '\n' (skipMark text '\r' s.valueEnd)]? = some ' ' ∨
      text[skipMark text '\n' (skipMark text '\r' s.valueEnd)]? = some '\t'
  · rw [if_pos folds] at value
    have first := findLineBreak_first text (skipMark text '\n' (skipMark text '\r' s.valueEnd))
    cases found : findLineBreak text (skipMark text '\n' (skipMark text '\r' s.valueEnd)) with
    | none =>
      rw [found] at first
      refine .inl ⟨text.length, ?_, kept.after.trans inside.le, le_rfl, ?_⟩
      · rw [nextFolded, kept.same, if_neg (Nat.not_le_of_lt inside)]
        simp only [if_pos folds, found]
        exact Halts.pure _
      · have order : skipMark text '\n' (skipMark text '\r' s.valueEnd) ≤ text.length := by
          rcases folds with blank | blank <;> exact (lt_of_get blank).le
        rw [value, headerValueEnd_until order fun place after _ => first place after, List.drop_length]
        rfl
    | some valueEnd =>
      rw [found] at first
      obtain ⟨order, breaks, before⟩ := first
      have after := kept.after
      have next : Folding text stop ⟨valueEnd, valueEnd⟩ :=
        ⟨rfl, show stop ≤ valueEnd by omega, breaks, by rw [value, headerValueEnd_until order before]⟩
      refine .inr ⟨_, ?_, next, show text.length - valueEnd < text.length - s.valueEnd by omega⟩
      rw [nextFolded, kept.same, if_neg (Nat.not_le_of_lt inside)]
      simp only [if_pos folds, found]
      exact Halts.pure _
  · rw [if_neg folds] at value
    refine .inl ⟨s.valueEnd, ?_, kept.after, inside.le, value.symm⟩
    rw [nextFolded, kept.same, if_neg (Nat.not_le_of_lt inside)]
    simp only [if_neg folds]
    exact Halts.pure _

theorem headerEnd_ends {text : Text} {start : Nat} (inside : start ≤ text.length) :
    ∃ last, Halts (headerEnd text start) last ∧ start ≤ last ∧ last ≤ text.length ∧
      text.drop last = Redact.headerValueEnd (text.drop start) := by
  have first := findLineBreak_first text start
  rw [headerEnd]
  cases found : findLineBreak text start with
  | none =>
    rw [found] at first
    refine ⟨text.length, Halts.pure _, inside, le_rfl, ?_⟩
    rw [headerValueEnd_until inside fun place after _ => first place after, List.drop_length]
    rfl
  | some valueEnd =>
    rw [found] at first
    obtain ⟨order, broken, before⟩ := first
    obtain ⟨last, ends, after, fits, same⟩ := folded_ends text broken
    exact ⟨last, ends, order.trans after, fits, by rw [same, headerValueEnd_until order before]⟩

theorem nextHeader_passes (text : Text) {place : Nat} :
    Passes headerAt (fun s text place => s = ⟨text, toLower text, place⟩) nextHeader ⟨text, toLower text, place⟩ text place := by
  by_cases behind : text.length ≤ place
  · refine .ends (fun other after less => absurd less (by omega)) ?_
    rw [nextHeader, if_pos behind]
    exact Halts.pure _
  · obtain ⟨header, ends, near⟩ := header_ends text place
    cases header with
    | none =>
      refine .ends (fun other after less => headerAt_miss less (near other after)) ?_
      rw [nextHeader, if_neg behind]
      exact Halts.bind ends (Halts.pure _)
    | some best =>
      obtain ⟨after, named, before⟩ := near
      obtain ⟨inside, fits, applies⟩ := headerAt_hit named
      obtain ⟨last, value, order, -, same⟩ := headerEnd_ends fits
      have misses : Misses headerAt text place best.1 := fun other after less =>
        headerAt_miss (less.trans inside) (before other after less)
      have spliced : text.take (best.1 + best.2.length + 1) ++ chars " <redacted>" ++
          text.drop (best.1 + best.2.length + 1 + (last - (best.1 + best.2.length) - 1)) =
          text.take best.1 ++ ((text.drop best.1).take (best.2.length + 1) ++ chars " <redacted>") ++ text.drop last := by
        rw [Nat.sub_sub, Nat.add_sub_cancel' order, Nat.add_assoc, List.take_add, List.append_assoc (text.take best.1)]
      rw [← same] at applies
      refine .hits ⟨_, toLower _, _⟩ after inside misses applies ?_ rfl
      rw [nextHeader, if_neg behind]
      refine Halts.bind ends (Halts.bind value (replaced fits (replaced_lower fits rfl ?_)))
      rw [spliced, List.length_append, List.length_take, List.length_drop, Nat.min_eq_left (by omega)]
      exact Halts.pure _

theorem redactHeaders_ends (text : Text) : Halts (redactHeaders text) (Redact.redactHeaders text) := by
  refine loop_rewrites_text (fun s text place => s = ⟨text, toLower text, place⟩) Redact.advances_header ?_ rfl
  rintro s text place - rfl
  exact nextHeader_passes text

end Headers

end SubConverter.Utils.RedactLoops
