import SubConverter.Lib.AsciiCuts
import SubConverter.Utils.RedactFieldRuns

set_option autoImplicit false

namespace SubConverter.Utils.RedactLoops

open Handler (toLower startsWith split)
open Redact (isUrlTerminator isLineBreak endsParameter replacement headerNames userMarker urlSchemes urlScheme headerAt
  namedParameterAt structuredFieldAt curlAuthUserAt urlAt)
open AsciiCuts

section Marks

variable {text part : Text} {c : Char}

theorem lineBreak_ascii (breaks : isLineBreak c = true) : Ascii c := by
  have either : c = '\r' ∨ c = '\n' := by simpa [isLineBreak] using breaks
  rcases either with rfl | rfl <;> decide

theorem space_ascii (blank : Handler.isSpace c = true) : Ascii c := ascii_of_mem (by decide) (of_decide_eq_true blank)

theorem parameterEnd_ascii (ends : endsParameter c = true) : Ascii c := ascii_of_mem (by decide) (of_decide_eq_true ends)

theorem terminator_ascii (ends : isUrlTerminator c = true) : Ascii c := ascii_of_mem (by decide) (of_decide_eq_true ends)

theorem found_ascii (starts : startsWith (toLower text) part = true) (all : ∀ c ∈ part, Ascii c) :
    ∀ c ∈ text.take part.length, Ascii c := by
  have lower : (toLower text).take part.length = part := (List.prefix_iff_eq_take.mp (List.isPrefixOf_iff_prefix.mp starts)).symm
  intro c there
  rw [toLower, ← List.map_take] at lower
  have inside : c.toLower ∈ part := by
    rw [← lower]
    exact List.mem_map_of_mem there
  exact ascii_toLower.mp (all _ inside)

theorem first_ascii {rest : Text} (starts : startsWith (toLower (c :: rest)) part = true) (some' : part ≠ [])
    (all : ∀ c ∈ part, Ascii c) : Ascii c := by
  cases part with
  | nil => exact absurd rfl some'
  | cons mark part => exact found_ascii starts all c (by simp)

theorem found_cut {Kind : Text → Prop} (kind : Cuttable Kind) (starts : startsWith (toLower text) part = true)
    (all : ∀ c ∈ part, Ascii c) (whole : Kind text) : Kind (text.drop part.length) := by
  have front := found_ascii starts all
  rw [← List.take_append_drop part.length text] at whole
  exact (kind.edge whole (.inr fun c last => front c (List.mem_of_getLast? last))).2

theorem header_ascii : (headerNames.all fun name => (name ++ [':']).all fun c => decide (Ascii c)) = true := by decide

theorem headerValueEnd_head (text : Text) : ∀ c ∈ (Redact.headerValueEnd text).head?, isLineBreak c = true := by
  induction text using Redact.headerValueEnd.induct with
  | case1 => simp [Redact.headerValueEnd]
  | case2 c rest blank ih => rwa [Redact.headerValueEnd, if_pos blank]
  | case3 c rest blank =>
    rw [Redact.headerValueEnd, if_neg blank]
    simp [isLineBreak]
  | case4 c rest crlf blank ih =>
    rw [Redact.headerValueEnd, if_pos blank]
    · exact ih
    · exact crlf
  | case5 c rest crlf blank =>
    rw [Redact.headerValueEnd, if_neg blank]
    · simp [isLineBreak]
    · exact crlf
  | case6 c rest blank ih => rwa [Redact.headerValueEnd, if_pos blank]
  | case7 c rest blank =>
    rw [Redact.headerValueEnd, if_neg blank]
    simp [isLineBreak]
  | case8 c broken => simp [Redact.headerValueEnd, broken]
  | case9 c plain => simp [Redact.headerValueEnd, plain]
  | case10 c rest crlf cr lf some' ih =>
    obtain ⟨d, more, rfl⟩ := List.exists_cons_of_ne_nil some'
    have plain : isLineBreak c = false := by
      simp only [isLineBreak, Bool.or_eq_false_iff, decide_eq_false_iff_not]
      exact ⟨fun here => cr d more here rfl, fun here => lf d more here rfl⟩
    rwa [Redact.headerValueEnd_cons plain]

theorem scope_cut {Kind : Text → Prop} (kind : Cuttable Kind) {value : Text} {size : Nat} (whole : Kind value)
    (cut : ((cutAt userMarker (toLower value)).map fun parts => parts.1.length).getD value.length = size) :
    Kind (value.take size) ∧ Kind (value.drop size) := by
  cases found : cutAt userMarker (toLower value) with
  | none =>
    rw [found, Option.map_none, Option.getD_none] at cut
    rw [← cut, List.take_length, List.drop_length]
    exact ⟨whole, kind.nil⟩
  | some parts =>
    obtain ⟨inside, later⟩ := parts
    rw [found, Option.map_some, Option.getD_some] at cut
    dsimp only at cut
    have behind : toLower (value.drop size) = userMarker ++ later := by
      rw [← drop_toLower, eq_of_cutAt found, List.append_assoc, List.drop_left' cut]
    rw [← List.take_append_drop size value] at whole
    refine kind.edge whole (.inl fun c there => ?_)
    cases rest : value.drop size with
    | nil =>
      rw [rest] at there
      cases there
    | cons d rest' =>
      rw [rest] at there behind
      obtain rfl : d = c := Option.some.inj there
      have blank : d.toLower = ' ' := (List.cons.inj behind).1
      rw [← ascii_toLower, blank]
      decide

end Marks

section Rules

variable {Kind : Text → Prop} (kind : Cuttable Kind)

include kind

theorem keeps_parameter : Keeps Kind namedParameterAt where
  hit := by
    intro before rest out left c hit
    rw [Redact.namedParameterAt_cons, Option.ite_none_right_eq_some, Option.some.injEq, Prod.mk.injEq] at hit
    obtain ⟨⟨rfl, -⟩, rfl, rfl⟩ := hit
    have equals : Ascii '=' := by decide
    refine ⟨equals, fun whole => ⟨?_, ?_⟩⟩
    · exact kind.append (kind.single equals) (kind.literal (by decide))
    · refine (kind.while_stop _ whole fun c stop => parameterEnd_ascii ?_).2
      simpa using stop

theorem redactNamedParameters_kind {text : Text} (whole : Kind text) : Kind (Redact.redactNamedParameters text) :=
  kind.rewrite Redact.advances_parameter (keeps_parameter kind) whole

theorem keeps_header : Keeps Kind headerAt where
  hit := by
    intro before rest out left c hit
    rw [headerAt] at hit
    split at hit
    next =>
      cases found : headerNames.find? fun name => startsWith (toLower (c :: rest)) (name ++ [':']) with
      | none =>
        rw [found] at hit
        cases hit
      | some name =>
        have starts : startsWith (toLower (c :: rest)) (name ++ [':']) = true := by
          simpa using List.find?_some found
        have letters := List.all_eq_true.mp header_ascii name (List.mem_of_find?_eq_some found)
        have all : ∀ c ∈ name ++ [':'], Ascii c := fun c there => ascii_of_mem letters there
        have size : (name ++ [':']).length = name.length + 1 := by simp
        have first := first_ascii starts (by simp) all
        rw [found] at hit
        cases hit
        refine ⟨first, fun whole => ?_⟩
        have behind := found_cut kind starts all (kind.append (kind.single first) whole)
        have front := found_ascii starts all
        rw [size] at behind front
        refine ⟨kind.append (kind.ascii front) (kind.literal (by decide)), ?_⟩
        obtain ⟨taken, same⟩ := Redact.headerValueEnd_suffix ((c :: rest).drop (name.length + 1))
        rw [← same] at behind
        exact (kind.edge behind (.inl fun c there => lineBreak_ascii (headerValueEnd_head _ c there))).2
    next => cases hit

theorem redactHeaders_kind {text : Text} (whole : Kind text) : Kind (Redact.redactHeaders text) :=
  kind.rewrite Redact.advances_header (keeps_header kind) whole

theorem keeps_auth_user : Keeps Kind curlAuthUserAt where
  hit := by
    intro before rest out left c hit
    by_cases starts : startsWith (toLower (c :: rest)) userMarker = true
    · have all : ∀ c ∈ userMarker, Ascii c := fun c there => ascii_of_mem (by decide) there
      have first := first_ascii starts (by decide) all
      refine ⟨first, fun whole => ?_⟩
      have value := found_cut kind starts all (kind.append (kind.single first) whole)
      obtain ⟨size, -, cut, applies⟩ := curlAuthUserAt_hit before starts rfl
      rw [applies, Option.some.injEq, Prod.mk.injEq] at hit
      obtain ⟨rfl, rfl⟩ := hit
      refine ⟨kind.append (kind.ascii (found_ascii starts all)) (kind.literal (by decide)), ?_⟩
      have parts := scope_cut kind value cut
      split
      next =>
        have quote : Ascii '\'' := by decide
        refine kind.append (kind.append (kind.single quote) (kind.rwhile_stop _ parts.1 fun c stop => ?_).2) parts.2
        rwa [show c = '\'' by simpa using stop]
      next => exact parts.2
    · rw [curlAuthUserAt_miss starts] at hit
      cases hit

theorem redactCurlAuthUser_kind {text : Text} (whole : Kind text) : Kind (Redact.redactCurlAuthUser text) :=
  kind.rewrite advances_auth_user (keeps_auth_user kind) whole

end Rules

section Fields

variable {Kind : Text → Prop} (kind : Cuttable Kind)

theorem quotedValueEnd_cut (quote : Char) (inside : Text) :
    (∃ front rest, inside = front ++ quote :: rest ∧ Redact.quotedValueEnd quote inside = quote :: rest) ∨
      Redact.quotedValueEnd quote inside = inside.dropWhile fun c => !isLineBreak c := by
  have search (backslashes : Nat) (inside behind : Text) (found : Redact.quotedValueEnd.find quote backslashes inside = some behind) :
      ∃ front rest, inside = front ++ quote :: rest ∧ behind = quote :: rest := by
    induction inside generalizing backslashes with
    | nil => cases found
    | cons c inside ih =>
      rw [Redact.quotedValueEnd.find] at found
      split at found
      next here =>
        rw [Option.some.injEq] at found
        exact ⟨[], inside, by rw [here.1]; rfl, by rw [← found, here.1]⟩
      next =>
        obtain ⟨front, rest, same, ends⟩ := ih _ found
        exact ⟨c :: front, rest, by rw [same]; rfl, ends⟩
  rw [Redact.quotedValueEnd]
  cases found : Redact.quotedValueEnd.find quote 0 inside with
  | none => exact .inr rfl
  | some behind => exact .inl (search _ _ _ found)

theorem yamlBlockLines_subset (keyIndent : Nat) (lines : List Text) : Redact.yamlBlockLines keyIndent lines ⊆ lines := by
  induction lines with
  | nil => exact List.Subset.refl _
  | cons line rest ih =>
    rw [yamlBlockLines_cons]
    split
    next => exact List.Subset.refl _
    next => exact List.subset_cons_of_subset _ ih

include kind

theorem line_kind {value : Text} (whole : Kind value) : Kind (value.dropWhile fun c => !isLineBreak c) :=
  (kind.while_stop _ whole fun _ stop => lineBreak_ascii (by simpa using stop)).2

theorem quotedValueEnd_kind {quote : Char} {inside : Text} (ascii : Ascii quote) (whole : Kind inside) :
    Kind (Redact.quotedValueEnd quote inside) := by
  rcases quotedValueEnd_cut quote inside with ⟨front, rest, same, ends⟩ | ends
  · rw [same] at whole
    rw [ends]
    exact kind.append (kind.single ascii) (kind.cut ascii whole).2
  · rw [ends]
    exact line_kind kind whole

theorem compositeValueEnd_kind {closing : Char} {value : Text} (ascii : Ascii closing) (whole : Kind value) :
    Kind (Redact.compositeValueEnd closing value) := by
  rcases compositeValueEnd_cut closing value with ⟨front, same⟩ | ends
  · rw [same] at whole
    exact (kind.cut ascii whole).2
  · rw [ends]
    exact line_kind kind whole

theorem yamlBlockValueEnd_kind (beforeKey : Text) {value : Text} (whole : Kind value) :
    Kind (Redact.yamlBlockValueEnd beforeKey value) := by
  have mark : Ascii '\n' := by decide
  have lines := kind.splitOn mark whole
  refine kind.flatten fun line there => ?_
  obtain ⟨part, inside, rfl⟩ := List.mem_map.mp there
  exact kind.append (kind.single mark) (lines part (List.mem_of_mem_tail (yamlBlockLines_subset _ _ inside)))

theorem plain_kind {value : Text} (whole : Kind value) :
    Kind (value.drop ((value.takeWhile fun c => !(isLineBreak c || c ∈ [',', '\x7d', ']', '#'])).rdropWhile Handler.isSpace).length) := by
  have parts := kind.while_stop (fun c => !(isLineBreak c || c ∈ [',', '\x7d', ']', '#'])) whole fun c stop => by
    rw [Bool.not_eq_false', Bool.or_eq_true] at stop
    rcases stop with breaks | mark
    · exact lineBreak_ascii breaks
    · exact ascii_of_mem (by decide) (of_decide_eq_true mark)
  have split' := List.takeWhile_append_dropWhile (p := fun c => !(isLineBreak c || c ∈ [',', '\x7d', ']', '#'])) (l := value)
  generalize value.takeWhile (fun c => !(isLineBreak c || c ∈ [',', '\x7d', ']', '#'])) = plain at parts split' ⊢
  have trimmed := List.rdropWhile_append_rtakeWhile (p := Handler.isSpace) (l := plain)
  have behind : value.drop (plain.rdropWhile Handler.isSpace).length =
      plain.rtakeWhile Handler.isSpace ++ value.dropWhile fun c => !(isLineBreak c || c ∈ [',', '\x7d', ']', '#']) := by
    conv_lhs => rw [← split', ← trimmed, List.append_assoc, trimmed]
    rw [List.drop_left]
  rw [behind]
  exact kind.append (kind.ascii fun c there => space_ascii (List.mem_rtakeWhile_imp there)) parts.2

theorem keeps_field : Keeps Kind structuredFieldAt where
  hit := by
    intro before rest out left c hit
    by_cases colon : c = ':'
    · subst colon
      have mark : Ascii ':' := by decide
      refine ⟨mark, fun whole => ?_⟩
      have blanks : ∀ c ∈ rest.takeWhile fun c => c = ' ' ∨ c = '\t', Ascii c := by
        intro c there
        have blank := List.mem_takeWhile_imp there
        rw [decide_eq_true_eq] at blank
        rcases blank with rfl | rfl <;> decide
      have value : Kind (rest.dropWhile fun c => c = ' ' ∨ c = '\t') := by
        rw [← List.takeWhile_append_dropWhile (p := fun c => decide (c = ' ' ∨ c = '\t')) (l := rest)] at whole
        exact (kind.edge whole (.inr fun c there => blanks c (List.mem_of_getLast? there))).2
      rw [Redact.structuredFieldAt] at hit
      dsimp only at hit
      split at hit
      next => cases hit
      next =>
        split at hit
        next => cases hit
        next first inside same =>
          rw [same] at value hit
          split at hit
          next => cases hit
          next =>
            split at hit
            next quoted =>
              have quote : Ascii first := by
                rcases quoted with rfl | rfl <;> decide
              rw [Option.some.injEq, Prod.mk.injEq] at hit
              obtain ⟨rfl, rfl⟩ := hit
              refine ⟨kind.append (kind.append (kind.append (kind.single mark) (kind.ascii blanks)) (kind.single quote))
                (kind.literal (by decide)), ?_⟩
              exact quotedValueEnd_kind kind quote (kind.tail quote value)
            next =>
              rw [Option.some.injEq, Prod.mk.injEq] at hit
              obtain ⟨rfl, rfl⟩ := hit
              refine ⟨kind.append (kind.append (kind.single mark) (kind.ascii blanks)) (kind.literal (by decide)), ?_⟩
              -- A value without quotes: in brackets, in a block, or up to a mark.
              have brace : Ascii '\x7d' := by decide
              have bracket : Ascii ']' := by decide
              split
              next => exact compositeValueEnd_kind kind brace value
              next =>
                split
                next => exact compositeValueEnd_kind kind bracket value
                next =>
                  split
                  next => exact yamlBlockValueEnd_kind kind _ value
                  next => exact plain_kind kind value
    · rw [Redact.structuredFieldAt.eq_2] at hit
      · cases hit
      · intro rest' same
        exact colon (List.cons.inj same).1

theorem redactStructuredFields_kind {text : Text} (whole : Kind text) : Kind (Redact.redactStructuredFields text) :=
  kind.rewrite advances_field (keeps_field kind) whole

end Fields

section Urls

variable {Kind : Text → Prop} (kind : Cuttable Kind) {url front behind : Text}

theorem urlScheme_ascii (url : Text) : ∀ c ∈ urlScheme url, Ascii c := by
  rw [urlScheme]
  split
  next => simp
  next scheme behind _ =>
    split
    next plain =>
      intro c there
      obtain ⟨d, inside, rfl⟩ := List.mem_map.mp there
      have character := List.all_eq_true.mp plain d inside
      rw [Redact.schemeCharacter, Bool.or_eq_true] at character
      rw [ascii_toLower]
      rcases character with letter | mark
      · exact ascii_of_alphanum letter
      · exact ascii_of_mem (by decide) (of_decide_eq_true mark)
    next => simp

theorem slashes_ascii : ∀ c ∈ chars "://", Ascii c := fun _ there => ascii_of_mem (by decide) there

theorem urlScheme_letters : (urlSchemes.all fun scheme => scheme.all fun c => decide (Ascii c)) = true := by decide

include kind

theorem withoutUserinfo_kind (first : Kind front) (last : Kind behind) :
    Kind (Redact.withoutUserinfo front behind).1 ∧ Kind (Redact.withoutUserinfo front behind).2 := by
  have parts := kind.while_stop (fun c => c ∉ ['/', '?', '#']) last fun c stop => by
    have mark : c ∈ ['/', '?', '#'] := not_not.mp (of_decide_eq_false stop)
    exact ascii_of_mem (by decide) mark
  rw [Redact.withoutUserinfo]
  refine ⟨kind.append (kind.append first (kind.ascii slashes_ascii)) ?_, parts.2⟩
  split
  next =>
    refine (kind.rwhile_stop _ parts.1 fun c stop => ?_).2
    rw [show c = '@' by simpa using stop]
    decide
  next => exact parts.1

theorem redactPair_kind {pair : Text} (whole : Kind pair) : Kind (Redact.redactPair pair) := by
  have equals : ∀ c ∈ ['='], Ascii c := fun _ there => ascii_of_mem (by decide) there
  rw [Redact.redactPair]
  split
  next name value cut =>
    split
    next =>
      have named := (kind.cutAt_ascii (by simp) equals whole cut).1
      exact kind.append named (kind.append (kind.ascii equals) (kind.literal (by decide)))
    next => exact whole
  next => exact whole

theorem redactQuery_kind {query : Text} (whole : Kind query) : Kind (Redact.redactQuery query) := by
  have mark : Ascii '&' := by decide
  refine kind.intercalate mark fun pair there => ?_
  obtain ⟨part, inside, rfl⟩ := List.mem_map.mp there
  exact redactPair_kind kind (kind.splitOn mark whole part (Handler.mem_splitOn_of_mem_split inside))

theorem redactUrl_kind (whole : Kind url) : Kind (Redact.redactUrl url) := by
  rw [Redact.redactUrl]
  dsimp only
  split
  next => exact kind.append (kind.ascii (urlScheme_ascii url)) (kind.literal (by decide))
  next =>
    split
    next => exact redactNamedParameters_kind kind whole
    next front behind cut =>
      obtain ⟨first, last⟩ := kind.cutAt_ascii (by decide) slashes_ascii whole cut
      obtain ⟨origin, rest⟩ := withoutUserinfo_kind kind first last
      split
      next => exact kind.append origin (kind.literal (by decide))
      next =>
        split
        next => exact kind.append origin rest
        next address query found =>
          have mark : ∀ c ∈ ['?'], Ascii c := fun _ there => ascii_of_mem (by decide) there
          obtain ⟨start, query⟩ := kind.cutAt_ascii (by simp) mark (kind.append origin rest) found
          have parts := kind.while_stop (fun c => c ≠ '#') query fun c stop => by
            rw [show c = '#' by simpa using stop]
            decide
          refine redactNamedParameters_kind kind (kind.append (kind.append start ?_) parts.2)
          exact kind.append (kind.ascii mark) (redactQuery_kind kind parts.1)

theorem keeps_url : Keeps Kind urlAt where
  hit := by
    intro before rest out left c hit
    rw [urlAt, Option.ite_none_right_eq_some, Option.some.injEq, Prod.mk.injEq] at hit
    obtain ⟨starts, rfl, rfl⟩ := hit
    obtain ⟨scheme, listed, begins⟩ := List.any_eq_true.mp starts
    have all : ∀ c ∈ scheme, Ascii c := fun c there => ascii_of_mem (List.all_eq_true.mp urlScheme_letters scheme listed) there
    have some' : scheme ≠ [] := by
      rintro rfl
      cases List.all_eq_true.mp scheme_letters [] listed
    have first := first_ascii begins some' all
    refine ⟨first, fun whole => ?_⟩
    have parts := kind.while_stop (fun c => !isUrlTerminator c) (kind.append (kind.single first) whole) fun c stop =>
      terminator_ascii (by simpa using stop)
    exact ⟨redactUrl_kind kind parts.1, parts.2⟩

theorem redactSensitiveLogText_kind {text : Text} (whole : Kind text) : Kind (Redact.redactSensitiveLogText text) := by
  have headers := redactHeaders_kind kind whole
  have parameters := redactNamedParameters_kind kind headers
  have fields := redactStructuredFields_kind kind parameters
  have users := redactCurlAuthUser_kind kind fields
  exact kind.rewrite advances_url (keeps_url kind) users

end Urls

end SubConverter.Utils.RedactLoops
