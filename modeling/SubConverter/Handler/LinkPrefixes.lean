import SubConverter.Handler.TaggedLink
import SubConverter.Handler.GithubProxy
import SubConverter.Lib.AsciiCase
import SubConverter.Lib.Stripped

set_option autoImplicit false

namespace SubConverter.Handler

section Rounds

variable {input remainder other mark : Text} {result : TaggedLink} {extracted : Extracted} {sawBracketed parsed : Bool}

theorem dropPrefix?_spec {text rest : Text} (found : dropPrefix? mark text = some rest) : text = mark ++ rest := by
  rw [dropPrefix?, Option.ite_none_right_eq_some] at found
  obtain ⟨starts, same⟩ := found
  obtain ⟨behind, rfl⟩ := List.isPrefixOf_iff_prefix.mp starts
  rw [← Option.some.inj same, List.drop_left]

theorem length_extracted_lt (found : extractLinkPrefix input mark = some extracted) :
    extracted.remainder.length < input.length := by
  have whole := length_strip_le isSpace input
  unfold extractLinkPrefix at found
  simp only at found
  split at found
  next => cases found
  next rest bracketed opening =>
    have taken : rest.length ≤ (strip isSpace input).length := by
      split at opening
      next rest' bracket =>
        obtain ⟨rfl, -⟩ := Prod.mk.inj (Option.some.inj opening)
        rw [dropPrefix?_spec bracket, List.length_append]
        omega
      next =>
        obtain ⟨rest', plain, same⟩ := Option.map_eq_some_iff.mp opening
        obtain ⟨rfl, -⟩ := Prod.mk.inj same
        rw [dropPrefix?_spec plain, List.length_append]
        omega
    split at found
    next => cases found
    next value behind cut =>
      have comma := congrArg List.length (eq_of_cutAt cut)
      rw [List.length_append, List.length_append, List.length_singleton] at comma
      rw [Option.ite_none_left_eq_some] at found
      obtain ⟨-, same⟩ := found
      rw [← Option.some.inj same]
      dsimp only
      split
      next =>
        rw [List.length_tail]
        omega
      next => omega

end Rounds

section Kinds

inductive PrefixKind where
  | tag
  | provider
  | interval
  | proxyDirect
deriving DecidableEq, Repr

def PrefixKind.mark : PrefixKind → Text
  | .tag => chars "tag:"
  | .provider => chars "provider:"
  | .interval => chars "interval:"
  | .proxyDirect => chars "proxy_direct:"

def applyPrefix (result : TaggedLink) (kind : PrefixKind) (value : Text) : Except LinkError TaggedLink :=
  match kind with
  | .tag => .ok (if value ≠ [] ∧ result.tag = none then { result with tag := some value } else result)
  | .provider => .ok (if value ≠ [] ∧ result.provider = none then { result with provider := some value } else result)
  | .interval =>
    if result.interval ≠ none then .error .duplicateInterval
    else
      match parseProxyProviderInterval value with
      | none => .error .invalidInterval
      | some interval => .ok { result with interval := some interval }
  | .proxyDirect =>
    if result.proxyDirect ≠ none then .error .duplicateProxyDirect
    else
      match parseProxyProviderDirect value with
      | none => .error .invalidProxyDirect
      | some direct => .ok { result with proxyDirect := some direct }

def readFirst (remainder : Text) : List PrefixKind → Option (PrefixKind × Extracted)
  | [] => none
  | kind :: rest =>
    match extractLinkPrefix remainder kind.mark with
    | some extracted => some (kind, extracted)
    | none => readFirst remainder rest

def allKinds : List PrefixKind := [.tag, .provider, .interval, .proxyDirect]

variable {input remainder : Text} {result : TaggedLink} {sawBracketed parsed : Bool} {kind : PrefixKind} {extracted : Extracted}

theorem prefixStep_eq (result : TaggedLink) (remainder : Text) : prefixStep result remainder =
    match readFirst remainder allKinds with
    | some (kind, extracted) =>
      match applyPrefix result kind extracted.value with
      | .ok result => .more result extracted
      | .error error => .failed error
    | none => .done := by
  simp only [prefixStep, allKinds, readFirst, PrefixKind.mark]
  cases extractLinkPrefix remainder (chars "tag:") with
  | some extracted => rfl
  | none =>
  cases extractLinkPrefix remainder (chars "provider:") with
  | some extracted => rfl
  | none =>
  cases extractLinkPrefix remainder (chars "interval:") with
  | some extracted =>
    simp only [applyPrefix]
    split
    next => rfl
    next => cases parseProxyProviderInterval extracted.value <;> rfl
  | none =>
  cases extractLinkPrefix remainder (chars "proxy_direct:") with
  | some extracted =>
    simp only [applyPrefix]
    split
    next => rfl
    next => cases parseProxyProviderDirect extracted.value <;> rfl
  | none => rfl

theorem readFirst_some {kinds : List PrefixKind} (found : readFirst remainder kinds = some (kind, extracted)) :
    extractLinkPrefix remainder kind.mark = some extracted := by
  induction kinds with
  | nil => cases found
  | cons first rest ih =>
    rw [readFirst] at found
    cases here : extractLinkPrefix remainder first.mark with
    | none =>
      rw [here] at found
      exact ih found
    | some other =>
      rw [here] at found
      obtain ⟨rfl, rfl⟩ := Prod.mk.inj (Option.some.inj found)
      exact here

theorem readFirst_eq_none_iff {kinds : List PrefixKind} :
    readFirst remainder kinds = none ↔ ∀ kind ∈ kinds, extractLinkPrefix remainder kind.mark = none := by
  induction kinds with
  | nil => simp [readFirst]
  | cons first rest ih =>
    rw [readFirst, List.forall_mem_cons]
    cases extractLinkPrefix remainder first.mark <;> simp [ih]

theorem parsePrefixes_succ (rounds : Nat) : parsePrefixes (rounds + 1) result remainder sawBracketed parsed =
    match readFirst remainder allKinds with
    | some (kind, extracted) =>
      match applyPrefix result kind extracted.value with
      | .ok result => parsePrefixes rounds result extracted.remainder (sawBracketed || extracted.bracketed) true
      | .error error => some { result with error := error }
    | none => linkAfterPrefixes result remainder sawBracketed parsed := by
  rw [parsePrefixes, prefixStep_eq]
  cases readFirst remainder allKinds with
  | none => rfl
  | some pair =>
    obtain ⟨kind, extracted⟩ := pair
    dsimp only
    cases applyPrefix result kind extracted.value <;> rfl

theorem parsePrefixes_of_none (none : readFirst remainder allKinds = none) (rounds : Nat) :
    parsePrefixes rounds result remainder sawBracketed parsed = linkAfterPrefixes result remainder sawBracketed parsed := by
  cases rounds with
  | zero => rfl
  | succ rounds => rw [parsePrefixes_succ, none]

theorem parsePrefixes_add (rounds extra : Nat) (room : remainder.length ≤ rounds) :
    parsePrefixes (rounds + extra) result remainder sawBracketed parsed =
      parsePrefixes rounds result remainder sawBracketed parsed := by
  induction rounds generalizing result remainder sawBracketed parsed with
  | zero =>
    have empty : remainder = [] := List.length_eq_zero_iff.mp (Nat.le_zero.mp room)
    have nothing : readFirst remainder allKinds = none := by
      cases found : readFirst remainder allKinds with
      | none => rfl
      | some pair =>
        have shorter := length_extracted_lt (readFirst_some found)
        simp [empty] at shorter
    rw [parsePrefixes_of_none nothing, parsePrefixes_of_none nothing]
  | succ rounds ih =>
    rw [Nat.add_right_comm, parsePrefixes_succ, parsePrefixes_succ]
    cases found : readFirst remainder allKinds with
    | none => rfl
    | some pair =>
      obtain ⟨kind, extracted⟩ := pair
      have shorter := length_extracted_lt (readFirst_some found)
      dsimp only
      cases applyPrefix result kind extracted.value with
      | error error => rfl
      | ok next => exact ih (by omega)

end Kinds

section Items

inductive PrefixForm where
  | plain
  | closed
  | opened
deriving DecidableEq, Repr

structure LinkPrefix where
  kind : PrefixKind
  form : PrefixForm
  value : Text
  comma : ',' ∉ value

def LinkPrefix.text (item : LinkPrefix) : Text :=
  match item.form with
  | .plain => item.kind.mark ++ item.value ++ [',']
  | .closed => '<' :: item.kind.mark ++ item.value ++ [',', '>']
  | .opened => '<' :: item.kind.mark ++ item.value ++ [',']

def LinkPrefix.bracketed (item : LinkPrefix) : Bool := item.form ≠ .plain

variable {item : LinkPrefix} {kind other : PrefixKind} {rest : Text}

theorem startsWith_other (different : kind ≠ other) (behind : Text) : startsWith (kind.mark ++ behind) other.mark = false := by
  cases kind <;> cases other <;> first
    | exact absurd rfl different
    | simp [PrefixKind.mark, startsWith, chars, List.isPrefixOf]

theorem startsWith_bracket (behind : Text) : startsWith (kind.mark ++ behind) ('<' :: other.mark) = false := by
  cases kind <;> simp [PrefixKind.mark, startsWith, chars, List.isPrefixOf]

theorem startsWith_unbracketed (behind : Text) : startsWith ('<' :: behind) other.mark = false := by
  cases other <;> simp [PrefixKind.mark, startsWith, chars, List.isPrefixOf]

theorem dropPrefix?_append (mark behind : Text) : dropPrefix? mark (mark ++ behind) = some behind := by
  rw [dropPrefix?, if_pos, List.drop_left]
  exact List.isPrefixOf_iff_prefix.mpr (List.prefix_append mark behind)

theorem dropPrefix?_eq_none {mark text : Text} (other : startsWith text mark = false) : dropPrefix? mark text = none := by
  rw [dropPrefix?, if_neg (by simp [other])]

theorem dropWhile_mark (behind : Text) : (kind.mark ++ behind).dropWhile isSpace = kind.mark ++ behind := by
  cases kind <;> rfl

theorem strip_text (item : LinkPrefix) (rest : Text) : strip isSpace (item.text ++ rest) = item.text ++ rest.rdropWhile isSpace := by
  unfold LinkPrefix.text
  cases item.form with
  | plain =>
    have whole := strip_marked (by decide : isSpace ',' = false) (item.kind.mark ++ item.value) rest
    simpa [dropWhile_mark] using whole
  | closed =>
    have whole := strip_marked (by decide : isSpace '>' = false) ('<' :: item.kind.mark ++ item.value ++ [',']) rest
    simpa [show isSpace '<' = false by decide] using whole
  | opened =>
    have whole := strip_marked (by decide : isSpace ',' = false) ('<' :: item.kind.mark ++ item.value) rest
    simpa [show isSpace '<' = false by decide] using whole

theorem extract_other (different : item.kind ≠ other) : extractLinkPrefix (item.text ++ rest) other.mark = none := by
  have bare : dropPrefix? ('<' :: other.mark) (strip isSpace (item.text ++ rest)) = none ∧
      dropPrefix? other.mark (strip isSpace (item.text ++ rest)) = none := by
    rw [strip_text]
    unfold LinkPrefix.text
    cases item.form with
    | plain =>
      rw [List.append_assoc, List.append_assoc]
      exact ⟨dropPrefix?_eq_none (startsWith_bracket _), dropPrefix?_eq_none (startsWith_other different _)⟩
    | closed =>
      refine ⟨dropPrefix?_eq_none ?_, dropPrefix?_eq_none (startsWith_unbracketed _)⟩
      simpa [startsWith, List.isPrefixOf] using startsWith_other different (item.value ++ ([',', '>'] ++ rest.rdropWhile isSpace))
    | opened =>
      refine ⟨dropPrefix?_eq_none ?_, dropPrefix?_eq_none (startsWith_unbracketed _)⟩
      simpa [startsWith, List.isPrefixOf] using startsWith_other different (item.value ++ ([','] ++ rest.rdropWhile isSpace))
  simp only [extractLinkPrefix, bare.1, bare.2, Option.map_none]

theorem rdropWhile_ne_nil (present : strip isSpace rest ≠ []) : rest.rdropWhile isSpace ≠ [] := by
  intro none
  obtain ⟨back, whole, blank⟩ := rdropWhile_spec isSpace rest
  rw [none, List.nil_append] at whole
  exact present (strip_eq_nil_iff.mpr fun c there => blank c (whole ▸ there))

theorem extract_text (present : strip isSpace rest ≠ []) (apart : item.form = .opened → rest.head? ≠ some '>') :
    extractLinkPrefix (item.text ++ rest) item.kind.mark = some ⟨item.value, rest.rdropWhile isSpace, item.bracketed⟩ := by
  have left := rdropWhile_ne_nil present
  obtain ⟨back, whole, -⟩ := rdropWhile_spec isSpace rest
  have first : (rest.rdropWhile isSpace).head? = rest.head? := by
    conv_rhs => rw [whole, List.head?_append_of_ne_nil _ left]
  have cut : cutAt [','] (item.value ++ ',' :: rest.rdropWhile isSpace) = some (item.value, rest.rdropWhile isSpace) :=
    cutAt_mark_iff.mpr ⟨rfl, item.comma⟩
  have cutClosed : cutAt [','] (item.value ++ ',' :: '>' :: rest.rdropWhile isSpace) =
      some (item.value, '>' :: rest.rdropWhile isSpace) := cutAt_mark_iff.mpr ⟨rfl, item.comma⟩
  unfold extractLinkPrefix
  rw [strip_text]
  cases form : item.form with
  | plain =>
    have shape : item.text ++ rest.rdropWhile isSpace = item.kind.mark ++ (item.value ++ ',' :: rest.rdropWhile isSpace) := by
      simp [LinkPrefix.text, form]
    simp [shape, dropPrefix?_eq_none (startsWith_bracket _), dropPrefix?_append, cut, left, LinkPrefix.bracketed, form]
  | closed =>
    have shape : item.text ++ rest.rdropWhile isSpace =
        ('<' :: item.kind.mark) ++ (item.value ++ ',' :: '>' :: rest.rdropWhile isSpace) := by
      simp [LinkPrefix.text, form]
    simp only [shape, dropPrefix?_append, cutClosed]
    simp [left, LinkPrefix.bracketed, form]
  | opened =>
    have shape : item.text ++ rest.rdropWhile isSpace =
        ('<' :: item.kind.mark) ++ (item.value ++ ',' :: rest.rdropWhile isSpace) := by
      simp [LinkPrefix.text, form]
    simp only [shape, dropPrefix?_append, cut]
    simp [left, first, apart form, LinkPrefix.bracketed, form]

theorem readFirst_text (present : strip isSpace rest ≠ []) (apart : item.form = .opened → rest.head? ≠ some '>') :
    readFirst (item.text ++ rest) allKinds = some (item.kind, ⟨item.value, rest.rdropWhile isSpace, item.bracketed⟩) := by
  have here := extract_text present apart
  have others : ∀ other, item.kind ≠ other → extractLinkPrefix (item.text ++ rest) other.mark = none := fun _ => extract_other
  generalize item.text ++ rest = text at here others
  simp only [readFirst, allKinds]
  cases kind : item.kind <;> simp_all

end Items

section Runs

variable {result : TaggedLink} {remainder other link : Text} {sawBracketed parsed : Bool} {items : List LinkPrefix}

def texts (items : List LinkPrefix) : Text := items.flatMap LinkPrefix.text

def readAll : TaggedLink → List LinkPrefix → Except (TaggedLink × LinkError) TaggedLink
  | result, [] => .ok result
  | result, item :: rest =>
    match applyPrefix result item.kind item.value with
    | .ok next => readAll next rest
    | .error error => .error (result, error)

-- The link without the bracket that closes the prefixes.
def linkOf (sawBracketed : Bool) (link : Text) : Text :=
  let trimmed := strip isSpace link
  if sawBracketed ∧ trimmed.getLast? = some '>' then trimmed.dropLast else trimmed

theorem extractLinkPrefix_strip (same : strip isSpace remainder = strip isSpace other) (mark : Text) :
    extractLinkPrefix remainder mark = extractLinkPrefix other mark := by
  rw [extractLinkPrefix, extractLinkPrefix, same]

theorem readFirst_strip (same : strip isSpace remainder = strip isSpace other) (kinds : List PrefixKind) :
    readFirst remainder kinds = readFirst other kinds := by
  induction kinds with
  | nil => rfl
  | cons kind rest ih => rw [readFirst, readFirst, extractLinkPrefix_strip same, ih]

theorem linkAfterPrefixes_strip (same : strip isSpace remainder = strip isSpace other) :
    linkAfterPrefixes result remainder sawBracketed parsed = linkAfterPrefixes result other sawBracketed parsed := by
  rw [linkAfterPrefixes, linkAfterPrefixes, same]

theorem parsePrefixes_strip (same : strip isSpace remainder = strip isSpace other) (rounds : Nat) :
    parsePrefixes rounds result remainder sawBracketed parsed = parsePrefixes rounds result other sawBracketed parsed := by
  cases rounds with
  | zero => exact linkAfterPrefixes_strip same
  | succ rounds =>
    rw [parsePrefixes_succ, parsePrefixes_succ, readFirst_strip same]
    cases readFirst other allKinds with
    | none => exact linkAfterPrefixes_strip same
    | some pair => rfl

theorem strip_rdropWhile (text : Text) : strip isSpace (text.rdropWhile isSpace) = strip isSpace text := by
  obtain ⟨back, whole, blank⟩ := rdropWhile_spec isSpace text
  conv_rhs => rw [whole, strip_back blank]

theorem strip_texts_ne_nil (items : List LinkPrefix) (present : strip isSpace link ≠ []) :
    strip isSpace (texts items ++ link) ≠ [] := by
  intro none
  refine present (strip_eq_nil_iff.mpr fun c there => ?_)
  exact strip_eq_nil_iff.mp none c (List.mem_append_right _ there)

theorem head?_texts (items : List LinkPrefix) (apart : link.head? ≠ some '>') : (texts items ++ link).head? ≠ some '>' := by
  cases items with
  | nil => exact apart
  | cons item rest =>
    rw [texts, List.flatMap_cons, LinkPrefix.text]
    cases item.form <;> cases item.kind <;> simp [PrefixKind.mark, chars]

theorem parsePrefixes_texts (present : strip isSpace link ≠ [])
    (apart : ∀ item ∈ items, item.form = .opened → link.head? ≠ some '>') {rounds : Nat} (room : items.length ≤ rounds)
    (bare : readFirst link allKinds = none) :
    parsePrefixes rounds result (texts items ++ link) sawBracketed parsed =
      match readAll result items with
      | .ok final => linkAfterPrefixes final link (sawBracketed || items.any LinkPrefix.bracketed) (parsed || items ≠ [])
      | .error (partly, error) => some { partly with error := error } := by
  induction items generalizing result rounds sawBracketed parsed with
  | nil => simpa [texts, readAll] using parsePrefixes_of_none bare rounds
  | cons item rest ih =>
    obtain ⟨here, later⟩ := List.forall_mem_cons.mp apart
    obtain ⟨more, rfl⟩ := Nat.exists_eq_add_of_le' (Nat.succ_le_of_lt (Nat.lt_of_lt_of_le (Nat.succ_pos rest.length) room))
    have shape : texts (item :: rest) ++ link = item.text ++ (texts rest ++ link) := by
      rw [texts, List.flatMap_cons, List.append_assoc, texts]
    have read := @readFirst_text item (texts rest ++ link) (strip_texts_ne_nil rest present) fun opened =>
      head?_texts rest (here opened)
    rw [shape, parsePrefixes_succ, read, readAll]
    dsimp only
    cases applyPrefix result item.kind item.value with
    | error error => rfl
    | ok next =>
      have behind := @ih next (sawBracketed || item.bracketed) true later more (by simpa using room)
      simp only [parsePrefixes_strip (strip_rdropWhile (texts rest ++ link)), behind]
      simp [Bool.or_assoc]

theorem linkAfterPrefixes_isSome : (linkAfterPrefixes result remainder sawBracketed true).isSome := by
  rw [linkAfterPrefixes]
  simp only
  split
  next => rfl
  next =>
  split
  next => rfl
  next => rfl

theorem parsePrefixes_isSome (rounds : Nat) : (parsePrefixes rounds result remainder sawBracketed true).isSome := by
  induction rounds generalizing result remainder sawBracketed with
  | zero => exact linkAfterPrefixes_isSome
  | succ rounds ih =>
    rw [parsePrefixes_succ]
    cases readFirst remainder allKinds with
    | none => exact linkAfterPrefixes_isSome
    | some pair =>
      obtain ⟨kind, extracted⟩ := pair
      dsimp only
      cases applyPrefix result kind extracted.value with
      | error error => rfl
      | ok next => exact ih

theorem bare_link (bare : parseLinkPrefixes link = none) : readFirst link allKinds = none ∧
    ∀ (result : TaggedLink) (sawBracketed : Bool),
      linkAfterPrefixes result link sawBracketed true = some { result with link := linkOf sawBracketed link } := by
  have nothing : readFirst link allKinds = none := by
    cases found : readFirst link allKinds with
    | none => rfl
    | some pair =>
      obtain ⟨kind, extracted⟩ := pair
      obtain ⟨rounds, long⟩ := Nat.exists_eq_add_of_lt (length_extracted_lt (readFirst_some found))
      rw [parseLinkPrefixes, long, parsePrefixes_succ, found] at bare
      dsimp only at bare
      cases applied : applyPrefix {} kind extracted.value with
      | error error =>
        rw [applied] at bare
        cases bare
      | ok next =>
        rw [applied] at bare
        have given := @parsePrefixes_isSome next extracted.remainder (false || extracted.bracketed) (extracted.remainder.length + rounds)
        rw [show parsePrefixes _ next _ _ true = none from bare] at given
        cases given
  refine ⟨nothing, fun result sawBracketed => ?_⟩
  rw [parseLinkPrefixes, parsePrefixes_of_none nothing, linkAfterPrefixes] at bare
  rw [linkAfterPrefixes]
  simp only at bare ⊢
  split at bare
  next => cases bare
  next interval =>
  split at bare
  next => cases bare
  next direct =>
    rw [if_neg interval, if_neg direct]
    rfl

structure PrefixedLink where
  prefixes : List LinkPrefix
  link : Text
  present : strip isSpace link ≠ []
  bare : parseLinkPrefixes link = none
  apart : ∀ item ∈ prefixes, item.form = .opened → link.head? ≠ some '>'

def PrefixedLink.text (item : PrefixedLink) : Text := texts item.prefixes ++ item.link

def PrefixedLink.read (item : PrefixedLink) : TaggedLink :=
  match readAll {} item.prefixes with
  | .ok final => { final with link := linkOf (item.prefixes.any LinkPrefix.bracketed) item.link }
  | .error (partly, error) => { partly with error := error }

theorem length_texts_le (items : List LinkPrefix) : items.length ≤ (texts items).length := by
  induction items with
  | nil => exact le_rfl
  | cons item rest ih =>
    have long : 1 ≤ item.text.length := by
      unfold LinkPrefix.text
      cases item.form with
      | plain =>
        simp
        omega
      | closed => simp
      | opened => simp
    rw [texts, List.flatMap_cons, List.length_append, List.length_cons, ← texts]
    omega

theorem PrefixedLink.parse (item : PrefixedLink) (some' : item.prefixes ≠ []) : parseLinkPrefixes item.text = some item.read := by
  obtain ⟨bare, link⟩ := bare_link item.bare
  have room : item.prefixes.length ≤ (texts item.prefixes ++ item.link).length := by
    have long := length_texts_le item.prefixes
    rw [List.length_append]
    omega
  rw [parseLinkPrefixes, PrefixedLink.text, parsePrefixes_texts item.present item.apart room bare, PrefixedLink.read]
  cases readAll {} item.prefixes with
  | error fault => rfl
  | ok final =>
    dsimp only
    rw [Bool.false_or, Bool.false_or, decide_eq_true some']
    exact link final _

theorem parseLinkPrefixes_strip (text : Text) : parseLinkPrefixes (strip isSpace text) = parseLinkPrefixes text := by
  have short := length_strip_le isSpace text
  obtain ⟨extra, long⟩ := Nat.exists_eq_add_of_le short
  rw [parseLinkPrefixes, parseLinkPrefixes, ← parsePrefixes_add _ extra le_rfl, ← long]
  exact parsePrefixes_strip (strip_strip isSpace text) _

theorem PrefixedLink.parseTagged (item : PrefixedLink) (some' : item.prefixes ≠ []) : parseTaggedLink item.text = item.read := by
  rw [parseTaggedLink, parseLinkPrefixes_strip, item.parse some']

end Runs

section Orders

variable {result next : TaggedLink} {item other : LinkPrefix} {items others : List LinkPrefix} {kind : PrefixKind}

def LinkPrefix.WellFormed (item : LinkPrefix) : Prop :=
  match item.kind with
  | .interval => (parseProxyProviderInterval item.value).isSome
  | .proxyDirect => (parseProxyProviderDirect item.value).isSome
  | _ => True

def PrefixKind.single : PrefixKind → Bool
  | .interval => true
  | .proxyDirect => true
  | _ => false

def Faultless (items : List LinkPrefix) : Prop :=
  (∀ item ∈ items, item.WellFormed) ∧ items.Pairwise fun item other => item.kind = other.kind → item.kind.single = false

def TaggedLink.free (result : TaggedLink) : PrefixKind → Prop
  | .interval => result.interval = none
  | .proxyDirect => result.proxyDirect = none
  | _ => True

def settle (result : TaggedLink) (item : LinkPrefix) : TaggedLink :=
  match item.kind with
  | .tag => if item.value ≠ [] ∧ result.tag = none then { result with tag := some item.value } else result
  | .provider => if item.value ≠ [] ∧ result.provider = none then { result with provider := some item.value } else result
  | .interval => { result with interval := parseProxyProviderInterval item.value }
  | .proxyDirect => { result with proxyDirect := parseProxyProviderDirect item.value }

theorem applyPrefix_eq_ok_iff : applyPrefix result item.kind item.value = .ok next ↔
    (item.WellFormed ∧ result.free item.kind) ∧ next = settle result item := by
  unfold applyPrefix LinkPrefix.WellFormed TaggedLink.free settle
  cases item.kind with
  | tag => simp [eq_comm]
  | provider => simp [eq_comm]
  | interval =>
    by_cases taken : result.interval = none
    · cases parseProxyProviderInterval item.value <;> simp [taken, eq_comm]
    · simp [taken]
  | proxyDirect =>
    by_cases taken : result.proxyDirect = none
    · cases parseProxyProviderDirect item.value <;> simp [taken, eq_comm]
    · simp [taken]

theorem free_settle (valid : item.WellFormed) :
    (settle result item).free kind ↔ result.free kind ∧ (item.kind = kind → item.kind.single = false) := by
  unfold LinkPrefix.WellFormed at valid
  unfold settle TaggedLink.free
  cases given : item.kind with
  | tag => cases kind <;> simp [PrefixKind.single] <;> split <;> simp
  | provider => cases kind <;> simp [PrefixKind.single] <;> split <;> simp
  | interval =>
    rw [given] at valid
    obtain ⟨value, parsed⟩ := Option.isSome_iff_exists.mp valid
    cases kind <;> simp [PrefixKind.single, parsed]
  | proxyDirect =>
    rw [given] at valid
    obtain ⟨value, parsed⟩ := Option.isSome_iff_exists.mp valid
    cases kind <;> simp [PrefixKind.single, parsed]

theorem readAll_eq_ok_iff : readAll result items = .ok next ↔
    (Faultless items ∧ ∀ item ∈ items, result.free item.kind) ∧ next = items.foldl settle result := by
  induction items generalizing result with
  | nil =>
    rw [readAll, List.foldl_nil, Except.ok.injEq]
    exact ⟨fun same => ⟨⟨⟨by simp, List.Pairwise.nil⟩, by simp⟩, same.symm⟩, fun all => all.2.symm⟩
  | cons item rest ih =>
    rw [readAll]
    cases applied : applyPrefix result item.kind item.value with
    | error error =>
      have refused : ¬(item.WellFormed ∧ result.free item.kind) := by
        intro both
        have given := applyPrefix_eq_ok_iff.mpr ⟨both, rfl⟩
        rw [applied] at given
        cases given
      simp only [reduceCtorEq, false_iff, Faultless, List.forall_mem_cons]
      exact fun all => refused ⟨all.1.1.1.1, all.1.2.1⟩
    | ok after =>
      obtain ⟨⟨valid, free⟩, rfl⟩ := applyPrefix_eq_ok_iff.mp applied
      simp only [ih, Faultless, List.forall_mem_cons, List.pairwise_cons, List.foldl_cons, valid, free, free_settle valid]
      constructor
      · rintro ⟨⟨⟨all, apart⟩, behind⟩, same⟩
        exact ⟨⟨⟨⟨trivial, all⟩, fun other there => (behind other there).2, apart⟩, trivial,
          fun other there => (behind other there).1⟩, same⟩
      · rintro ⟨⟨⟨⟨-, all⟩, first, apart⟩, -, behind⟩, same⟩
        exact ⟨⟨⟨all, apart⟩, fun other there => ⟨behind other there, first other there⟩⟩, same⟩

theorem error_settle (result : TaggedLink) (item : LinkPrefix) : (settle result item).error = result.error := by
  unfold settle
  cases item.kind with
  | tag => simp only; split <;> rfl
  | provider => simp only; split <;> rfl
  | interval => rfl
  | proxyDirect => rfl

theorem error_foldl_settle (result : TaggedLink) (items : List LinkPrefix) : (items.foldl settle result).error = result.error := by
  induction items generalizing result with
  | nil => rfl
  | cons item rest ih => rw [List.foldl_cons, ih, error_settle]

theorem error_of_applyPrefix {value : Text} {error : LinkError} (failed : applyPrefix result kind value = .error error) :
    error ≠ .none := by
  rintro rfl
  unfold applyPrefix at failed
  cases kind with
  | tag => cases failed
  | provider => cases failed
  | interval =>
    simp only at failed
    split at failed
    next => cases failed
    next => cases parsed : parseProxyProviderInterval value <;> simp [parsed] at failed
  | proxyDirect =>
    simp only at failed
    split at failed
    next => cases failed
    next => cases parsed : parseProxyProviderDirect value <;> simp [parsed] at failed

theorem error_of_readAll {partly : TaggedLink} {error : LinkError} (failed : readAll result items = .error (partly, error)) :
    error ≠ .none := by
  induction items generalizing result with
  | nil => cases failed
  | cons item rest ih =>
    rw [readAll] at failed
    cases applied : applyPrefix result item.kind item.value with
    | ok after =>
      rw [applied] at failed
      exact ih failed
    | error fault =>
      rw [applied] at failed
      obtain ⟨-, rfl⟩ := Prod.mk.inj (Except.error.inj failed)
      exact error_of_applyPrefix applied

theorem readAll_of_faultless (faultless : Faultless items) : readAll {} items = .ok (items.foldl settle {}) := by
  refine readAll_eq_ok_iff.mpr ⟨⟨faultless, fun item _ => ?_⟩, rfl⟩
  unfold TaggedLink.free
  cases item.kind <;> simp

theorem settle_comm (different : item.kind ≠ other.kind) (result : TaggedLink) :
    settle (settle result item) other = settle (settle result other) item := by
  unfold settle
  cases first : item.kind <;> cases second : other.kind <;> first
    | exact absurd (first.trans second.symm) different
    | (simp only; repeat' split) <;> simp_all

theorem foldl_settle_perm (same : items.Perm others) (distinct : (items.map LinkPrefix.kind).Nodup) (result : TaggedLink) :
    items.foldl settle result = others.foldl settle result := by
  refine same.foldl_eq' (fun item there other here result => ?_) result
  by_cases equal : item = other
  · rw [equal]
  · exact settle_comm (fun kinds => equal (List.inj_on_of_nodup_map distinct there here kinds)) result

theorem faultless_of_distinct (valid : ∀ item ∈ items, item.WellFormed) (distinct : (items.map LinkPrefix.kind).Nodup) :
    Faultless items :=
  ⟨valid, (List.pairwise_map.mp distinct).imp fun different same => absurd same different⟩

end Orders

section Encoding

open GithubProxy (urlEncode toHex)

variable {text rest : Text} {c : Char}

theorem hex_byte : ∀ n : Fin 256, (toHex (n.val / 16)).isAlphanum ∧ (toHex (n.val % 16)).isAlphanum ∧
    Char.ofNat ((fromHex (toHex (n.val / 16)) * 16 + fromHex (toHex (n.val % 16))) % 256) = Char.ofNat n.val := by
  decide +kernel

theorem urlEncode_cons (c : Char) (rest : Text) : urlEncode (c :: rest) =
    (if c.isAlphanum ∨ c ∈ ['-', '_', '.', '~'] then [c] else ['%', toHex (c.toNat / 16), toHex (c.toNat % 16)]) ++
      urlEncode rest := rfl

theorem urlDecode_urlEncode (bytes : ∀ c ∈ text, c.toNat < 256) (breaks : ∀ c ∈ text, c ≠ '\r' ∧ c ≠ '\n') :
    urlDecode (urlEncode text) = text := by
  induction text with
  | nil => rfl
  | cons c rest ih =>
    obtain ⟨byte, laterBytes⟩ := List.forall_mem_cons.mp bytes
    obtain ⟨line, laterBreaks⟩ := List.forall_mem_cons.mp breaks
    rw [urlEncode_cons]
    split
    next plain =>
      have other : c ≠ '+' ∧ c ≠ '%' := by
        constructor <;>
          · rintro rfl
            revert plain
            decide
      rw [List.singleton_append, urlDecode.eq_5 _ _ other.1 (fun _ _ _ same => absurd same other.2) (fun same => other.2 same),
        if_neg (not_or.mpr line), ih laterBytes laterBreaks]
    next =>
      obtain ⟨high, low, value⟩ := hex_byte ⟨c.toNat, byte⟩
      rw [List.cons_append, List.cons_append, List.cons_append, List.nil_append, urlDecode, if_pos ⟨high, low⟩]
      simp only [value, Char.ofNat_toNat]
      rw [if_neg (not_or.mpr line), ih laterBytes laterBreaks]

theorem mem_urlEncode (bytes : ∀ c ∈ text, c.toNat < 256) (there : c ∈ urlEncode text) :
    c.isAlphanum ∨ c ∈ ['-', '_', '.', '~', '%'] := by
  obtain ⟨d, among, inside⟩ := List.mem_flatMap.mp there
  split at inside
  next plain =>
    obtain rfl := List.mem_singleton.mp inside
    refine plain.imp_right fun listed => ?_
    simp only [List.mem_cons, List.not_mem_nil, or_false] at listed ⊢
    tauto
  next =>
    obtain ⟨high, low, -⟩ := hex_byte ⟨d.toNat, bytes d among⟩
    simp only [List.mem_cons, List.not_mem_nil, or_false] at inside
    rcases inside with rfl | rfl | rfl
    · exact .inr (by simp)
    · exact .inl high
    · exact .inl low

theorem colon_mem_mark (kind : PrefixKind) : ':' ∈ kind.mark := by cases kind <;> simp [PrefixKind.mark, chars]

theorem extract_without_colon (absent : ':' ∉ text) (kind : PrefixKind) : extractLinkPrefix text kind.mark = none := by
  have nowhere : ':' ∉ strip isSpace text := fun there => absent (mem_of_mem_strip there)
  have bare (mark : Text) (marked : ':' ∈ mark) : dropPrefix? mark (strip isSpace text) = none := by
    cases found : dropPrefix? mark (strip isSpace text) with
    | none => rfl
    | some rest =>
      rw [dropPrefix?_spec found] at nowhere
      exact absurd (List.mem_append_left _ marked) nowhere
  have marked := colon_mem_mark kind
  simp only [extractLinkPrefix, bare _ marked, bare _ (List.mem_cons_of_mem '<' marked), Option.map_none]

theorem startsWith_without_colon {mark : Text} (absent : ':' ∉ text) (marked : ':' ∈ mark) :
    startsWith (toLower (strip isSpace text)) mark = false := by
  by_contra starts
  obtain ⟨behind, whole⟩ := List.isPrefixOf_iff_prefix.mp (Bool.not_eq_false _ ▸ starts)
  have inside : ':' ∈ toLower (strip isSpace text) := whole ▸ List.mem_append_left _ marked
  obtain ⟨c, there, lower⟩ := List.mem_map.mp inside
  obtain rfl := eq_of_toLower (by decide) lower
  exact absent (mem_of_mem_strip there)

theorem parseLinkPrefixes_without_colon (absent : ':' ∉ text) : parseLinkPrefixes text = none := by
  have nothing : readFirst text allKinds = none := readFirst_eq_none_iff.mpr fun kind _ => extract_without_colon absent kind
  have interval : startsWith (toLower (strip isSpace text)) (chars "interval:") = false :=
    startsWith_without_colon absent (by simp [chars])
  have intervalBracket : startsWith (toLower (strip isSpace text)) ('<' :: chars "interval:") = false :=
    startsWith_without_colon absent (by simp [chars])
  have direct : startsWith (toLower (strip isSpace text)) (chars "proxy_direct:") = false :=
    startsWith_without_colon absent (by simp [chars])
  have directBracket : startsWith (toLower (strip isSpace text)) ('<' :: chars "proxy_direct:") = false :=
    startsWith_without_colon absent (by simp [chars])
  rw [parseLinkPrefixes, parsePrefixes_of_none nothing, linkAfterPrefixes]
  simp [interval, intervalBracket, direct, directBracket]

theorem urlEncode_append (front back : Text) : urlEncode (front ++ back) = urlEncode front ++ urlEncode back :=
  List.flatMap_append

theorem looksEncoded (item : LinkPrefix) (rest : Text) : looksLikeEncodedLinkPrefix (urlEncode (item.text ++ rest)) = true := by
  have listed : ∀ kind : PrefixKind, toLower (urlEncode kind.mark) ∈ encodedPrefixes ∧
      toLower (urlEncode ('<' :: kind.mark)) ∈ encodedPrefixes := by
    intro kind
    cases kind <;> decide
  have starts (mark behind : Text) (there : toLower (urlEncode mark) ∈ encodedPrefixes) :
      encodedPrefixes.any (startsWith (toLower (urlEncode (mark ++ behind)))) = true := by
    refine List.any_eq_true.mpr ⟨_, there, List.isPrefixOf_iff_prefix.mpr ?_⟩
    rw [urlEncode_append, toLower, toLower, List.map_append]
    exact List.prefix_append _ _
  rw [looksLikeEncodedLinkPrefix, Bool.or_eq_true]
  left
  unfold LinkPrefix.text
  cases item.form with
  | plain =>
    rw [List.append_assoc, List.append_assoc]
    exact starts _ _ (listed item.kind).1
  | closed =>
    rw [List.append_assoc, List.append_assoc]
    exact starts _ _ (listed item.kind).2
  | opened =>
    rw [List.append_assoc, List.append_assoc]
    exact starts _ _ (listed item.kind).2

theorem PrefixedLink.parseEncoded (item : PrefixedLink) (given : item.prefixes ≠ []) (bytes : ∀ c ∈ item.text, c.toNat < 256)
    (breaks : ∀ c ∈ item.text, c ≠ '\r' ∧ c ≠ '\n') :
    parseTaggedLink (urlEncode item.text) = { item.read with linkDecoded := true } := by
  have plain : ∀ c ∈ urlEncode item.text, isSpace c = false ∧ c ≠ ':' := by
    intro c there
    constructor
    · by_contra space
      have blank : ∀ c ∈ [' ', '\t', '\x0c', '\x0b', '\n', '\r'], ¬(c.isAlphanum ∨ c ∈ ['-', '_', '.', '~', '%']) := by
        simp [Char.isAlphanum, Char.isAlpha, Char.isUpper, Char.isLower, Char.isDigit]
      exact blank c (of_decide_eq_true (Bool.not_eq_false _ ▸ space)) (mem_urlEncode bytes there)
    · rintro rfl
      exact absurd (mem_urlEncode bytes there) (by decide)
  have stripped : strip isSpace (urlEncode item.text) = urlEncode item.text :=
    strip_eq_self (fun c there => (plain c (List.mem_of_mem_head? there)).1) fun c there => (plain c (List.mem_of_getLast? there)).1
  have unread : parseLinkPrefixes (urlEncode item.text) = none :=
    parseLinkPrefixes_without_colon fun there => (plain ':' there).2 rfl
  have looks : looksLikeEncodedLinkPrefix (urlEncode item.text) = true := by
    obtain ⟨first, rest, shape⟩ := List.exists_cons_of_ne_nil given
    rw [PrefixedLink.text, shape, texts, List.flatMap_cons, List.append_assoc]
    exact looksEncoded first _
  rw [parseTaggedLink, stripped, unread]
  simp only [looks, if_true, urlDecode_urlEncode bytes breaks, item.parse given]

end Encoding

section Unfinished

variable {rest : Text}

def Unfinished (rest : Text) : Prop :=
  (∃ mark ∈ [chars "interval:", chars "<interval:", chars "proxy_direct:", chars "<proxy_direct:"],
    startsWith (toLower (strip isSpace rest)) mark = true) ∧ hasInfix (chars "%2c") (toLower (strip isSpace rest)) = false

theorem Unfinished.linkAfter (unfinished : Unfinished rest) (result : TaggedLink) (sawBracketed parsed : Bool) :
    ∃ error, linkAfterPrefixes result rest sawBracketed parsed = some { result with error := error } ∧ error ≠ .none := by
  obtain ⟨⟨mark, there, starts⟩, whole⟩ := unfinished
  have bracketed (name : String) : '<' :: chars name = chars ("<" ++ name) := by simp [chars]
  rw [linkAfterPrefixes]
  simp only [whole, Bool.not_false, and_true, bracketed, Bool.or_eq_true]
  split
  next => exact ⟨.invalidInterval, rfl, by decide⟩
  next interval =>
  split
  next => exact ⟨.invalidProxyDirect, rfl, by decide⟩
  next direct =>
    simp only [not_or] at interval direct
    simp only [List.mem_cons, List.not_mem_nil, or_false] at there
    rcases there with rfl | rfl | rfl | rfl
    · exact absurd starts interval.1
    · exact absurd starts interval.2
    · exact absurd starts direct.1
    · exact absurd starts direct.2

theorem Unfinished.head? (unfinished : Unfinished rest) : strip isSpace rest ≠ [] ∧ rest.head? ≠ some '>' := by
  obtain ⟨⟨mark, there, starts⟩, -⟩ := unfinished
  have first : mark.head? = some 'i' ∨ mark.head? = some 'p' ∨ mark.head? = some '<' := by
    simp only [List.mem_cons, List.not_mem_nil, or_false] at there
    rcases there with rfl | rfl | rfl | rfl <;> simp [chars]
  obtain ⟨behind, whole⟩ := List.isPrefixOf_iff_prefix.mp starts
  have lower : (toLower (strip isSpace rest)).head? = mark.head? := by
    rw [← whole]
    refine List.head?_append_of_ne_nil _ ?_
    rintro rfl
    simp at first
  constructor
  · intro none
    rw [none] at lower
    rw [← lower] at first
    simp [toLower] at first
  · intro head
    cases rest with
    | nil => cases head
    | cons c more =>
      obtain rfl := Option.some.inj head
      obtain ⟨tail, shape⟩ := strip_cons (by decide : isSpace '>' = false) more
      rw [shape] at lower
      rw [← lower] at first
      revert first
      simp [toLower]

theorem Unfinished.parse (unfinished : Unfinished rest) (nothing : ∀ kind : PrefixKind, extractLinkPrefix rest kind.mark = none)
    (items : List LinkPrefix) : (parseTaggedLink (texts items ++ rest)).error ≠ .none := by
  obtain ⟨present, apart⟩ := unfinished.head?
  have bare : readFirst rest allKinds = none := readFirst_eq_none_iff.mpr fun kind _ => nothing kind
  have room : items.length ≤ (texts items ++ rest).length := by
    have long := length_texts_le items
    rw [List.length_append]
    omega
  have run := @parsePrefixes_texts {} rest false false items present (fun _ _ _ => apart) _ room bare
  rw [parseTaggedLink, parseLinkPrefixes_strip, parseLinkPrefixes, run]
  cases read : readAll {} items with
  | error fault =>
    obtain ⟨partly, error⟩ := fault
    exact error_of_readAll read
  | ok final =>
    obtain ⟨error, after, fault⟩ := unfinished.linkAfter final (false || items.any LinkPrefix.bracketed) (false || items ≠ [])
    simp only [after]
    exact fault

end Unfinished

section Settled

open GithubProxy (urlEncode)

theorem tagged_link_prefixes :
    (∀ text extra, parsePrefixes (text.length + extra) {} text false false = parseLinkPrefixes text) ∧
    (∀ first second : PrefixedLink, first.prefixes.Perm second.prefixes → first.link = second.link →
      (∀ item ∈ first.prefixes, item.WellFormed) → (first.prefixes.map LinkPrefix.kind).Nodup →
      parseTaggedLink first.text = parseTaggedLink second.text) ∧
    (∀ item : PrefixedLink, item.prefixes ≠ [] → (∀ c ∈ item.text, c.toNat < 256) → (∀ c ∈ item.text, c ≠ '\r' ∧ c ≠ '\n') →
      parseTaggedLink (urlEncode item.text) = { parseTaggedLink item.text with linkDecoded := true }) ∧
    (∀ item : PrefixedLink, item.prefixes ≠ [] → ((parseTaggedLink item.text).error ≠ .none ↔ ¬ Faultless item.prefixes)) ∧
    ∀ items rest, Unfinished rest → (∀ kind : PrefixKind, extractLinkPrefix rest kind.mark = none) →
      (parseTaggedLink (texts items ++ rest)).error ≠ .none := by
  refine ⟨fun text extra => parsePrefixes_add _ extra le_rfl, ?_, ?_, ?_, fun items rest unfinished nothing =>
    unfinished.parse nothing items⟩
  · intro first second same link valid distinct
    by_cases given : first.prefixes = []
    · rw [given] at same
      rw [PrefixedLink.text, PrefixedLink.text, given, same.nil_eq, link]
    · have other : second.prefixes ≠ [] := fun none => given (none ▸ same).eq_nil
      have left := faultless_of_distinct valid distinct
      have right : Faultless second.prefixes :=
        faultless_of_distinct (fun item there => valid item (same.mem_iff.mpr there)) ((same.map LinkPrefix.kind).nodup_iff.mp distinct)
      rw [first.parseTagged given, second.parseTagged other, PrefixedLink.read, PrefixedLink.read, readAll_of_faultless left,
        readAll_of_faultless right, foldl_settle_perm same distinct, same.any_eq, link]
  · intro item given bytes breaks
    rw [item.parseEncoded given bytes breaks, item.parseTagged given]
  · intro item given
    rw [item.parseTagged given, PrefixedLink.read]
    cases read : readAll {} item.prefixes with
    | ok final =>
      obtain ⟨⟨faultless, -⟩, rfl⟩ := readAll_eq_ok_iff.mp read
      simp [faultless, error_foldl_settle]
    | error fault =>
      obtain ⟨partly, error⟩ := fault
      have refused : ¬ Faultless item.prefixes := by
        intro faultless
        rw [readAll_of_faultless faultless] at read
        cases read
      simp [refused, error_of_readAll read]

theorem prefixes_by_design :
    (parseTaggedLink (urlEncode (chars "https://h/s"))).link ≠ (parseTaggedLink (chars "https://h/s")).link ∧
    (parseTaggedLink (urlEncode (chars "tag:a\nb,https://h/s"))).tag ≠ (parseTaggedLink (chars "tag:a\nb,https://h/s")).tag ∧
    (parseTaggedLink (chars "<tag:a,provider:p,>x")).link ≠ (parseTaggedLink (chars "provider:p,<tag:a,>x")).link := by
  decide

end Settled

end SubConverter.Handler
