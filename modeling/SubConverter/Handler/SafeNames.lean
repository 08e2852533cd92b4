import SubConverter.Handler.ProviderNames
import SubConverter.Lib.Stripped

set_option autoImplicit false

namespace SubConverter.Handler

section Replacement

variable {text part front out : Text} {last c : Char}

def Apart (first second : Char) : Prop := ¬(first = '.' ∧ second = '.') ∧ ¬(first = '_' ∧ second = '_')

structure Settled (text : Text) : Prop where
  allowed : ∀ c ∈ text, invalidNameChar c = true → c = '_'
  runs : text.IsChain Apart

theorem Settled.inside (settled : Settled text) (within : part <:+: text) : Settled part :=
  ⟨fun c there => settled.allowed c (within.subset there), List.IsChain.infix settled.runs within⟩

theorem invalidNameChar_underscore : invalidNameChar '_' = true := by decide

theorem cleanName_of_runs (allowed : ∀ c ∈ text, invalidNameChar c = true → c = '_')
    (runs : (last :: text).IsChain Apart) : cleanName last text = text := by
  induction text generalizing last with
  | nil => rfl
  | cons c rest ih =>
    obtain ⟨valid, later⟩ := List.forall_mem_cons.mp allowed
    rw [List.isChain_cons_cons] at runs
    rw [cleanName, ih later runs.2]
    obtain ⟨dots, lines⟩ := runs.1
    cases invalid : invalidNameChar c with
    | true =>
      obtain rfl := valid invalid
      have other : last ≠ '_' := fun same => lines ⟨same, rfl⟩
      simp [other, ih later runs.2]
    | false =>
      have other : ¬(c = '.' ∧ last = '.') := fun both => dots ⟨both.2, both.1⟩
      simp [other]

theorem cleanName_of_settled (settled : Settled text) : cleanName '\x00' text = text := by
  refine cleanName_of_runs settled.allowed (List.IsChain.cons settled.runs fun c _ => ?_)
  exact ⟨by simp, by simp⟩

theorem runs_cleanName (last : Char) (text : Text) :
    (∀ c ∈ cleanName last text, invalidNameChar c = true → c = '_') ∧ (last :: cleanName last text).IsChain Apart := by
  induction text generalizing last with
  | nil => simp [cleanName]
  | cons c rest ih =>
    rw [cleanName]
    split
    next =>
      split
      next => exact ih last
      next other =>
        obtain ⟨allowed, runs⟩ := ih '_'
        refine ⟨List.forall_mem_cons.mpr ⟨fun _ => rfl, allowed⟩, List.isChain_cons_cons.mpr ⟨⟨by simp, ?_⟩, runs⟩⟩
        exact fun both => other both.1
    next valid =>
      simp only [Bool.or_eq_true, Bool.and_eq_true, decide_eq_true_eq, not_or, Bool.not_eq_true] at valid
      obtain ⟨allowed, runs⟩ := ih c
      refine ⟨List.forall_mem_cons.mpr ⟨fun invalid => ?_, allowed⟩, List.isChain_cons_cons.mpr ⟨⟨?_, ?_⟩, runs⟩⟩
      · rw [valid.1] at invalid
        cases invalid
      · exact fun both => valid.2 ⟨both.2, both.1⟩
      · rintro ⟨-, rfl⟩
        exact absurd invalidNameChar_underscore (by simp [valid.1])

theorem settled_cleanName (last : Char) (text : Text) : Settled (cleanName last text) := by
  obtain ⟨allowed, runs⟩ := runs_cleanName last text
  exact ⟨allowed, runs.tail⟩

theorem cleanName_append (last : Char) (front back : Text) :
    ∃ next, cleanName last (front ++ back) = cleanName last front ++ cleanName next back ∧
      next = (cleanName last front).getLastD last := by
  induction front generalizing last with
  | nil => exact ⟨last, rfl, rfl⟩
  | cons c rest ih =>
    rw [List.cons_append, cleanName, cleanName]
    split
    next =>
      split
      next => exact ih last
      next =>
        obtain ⟨next, whole, same⟩ := ih '_'
        exact ⟨next, by rw [whole, List.cons_append], by rw [same, List.getLastD_cons]⟩
    next =>
      obtain ⟨next, whole, same⟩ := ih c
      exact ⟨next, by rw [whole, List.cons_append], by rw [same, List.getLastD_cons]⟩

theorem cleanName_concat_inv (other : c ≠ '_') (cleaned : cleanName '\x00' text = out ++ [c]) :
    ∃ front, text = front ++ [c] ∧ cleanName '\x00' front = out := by
  rcases List.eq_nil_or_concat text with rfl | ⟨front, d, rfl⟩
  · simp [cleanName] at cleaned
  rw [List.concat_eq_append] at cleaned ⊢
  obtain ⟨next, whole, same⟩ := cleanName_append '\x00' front [d]
  rw [whole, cleanName, cleanName] at cleaned
  split at cleaned
  next =>
    split at cleaned
    next mark =>
      rw [List.append_nil] at cleaned
      rw [cleaned] at same
      simp [mark] at same
      exact absurd same.symm other
    next =>
      obtain ⟨-, same⟩ := List.append_inj' cleaned rfl
      exact absurd (List.cons.inj same).1.symm other
  next =>
    obtain ⟨whole, same⟩ := List.append_inj' cleaned rfl
    exact ⟨front, by rw [(List.cons.inj same).1], whole⟩

theorem cleanName_eq_nil_iff : cleanName '\x00' text = [] ↔ text = [] := by
  cases text with
  | nil => simp [cleanName]
  | cons c rest =>
    rw [cleanName]
    split <;> simp

end Replacement

section Ends

variable {text part : Text}

theorem isSpace_blank : isSpace ' ' = true := by decide

theorem blank_of_settled {c : Char} (settled : Settled text) (there : c ∈ text) (space : isSpace c = true) : c = ' ' := by
  have valid := settled.allowed c there
  simp only [isSpace, decide_eq_true_eq, List.mem_cons, List.not_mem_nil, or_false] at space
  rcases space with rfl | rfl | rfl | rfl | rfl | rfl
  · rfl
  all_goals exact absurd (valid (by decide)) (by decide)

theorem dots_of_settled (settled : Settled text) (dots : ∀ c ∈ text, c = '.') : text = [] ∨ text = ['.'] := by
  match text, settled, dots with
  | [], _, _ => exact .inl rfl
  | [c], _, dots => exact .inr (by rw [dots c List.mem_cons_self])
  | c :: d :: rest, settled, dots =>
    have both := (List.isChain_cons_cons.mp settled.runs).1.1
    exact absurd ⟨dots c (by simp), dots d (by simp)⟩ both

theorem trimOf_settled (settled : Settled text) (mixed : ¬ ∀ c ∈ text, c = '.') :
    ∃ lead tail, text = lead ++ trimOf text '.' ++ tail ∧ (lead = [] ∨ lead = ['.']) ∧ (tail = [] ∨ tail = ['.']) ∧
      trimOf text '.' ≠ [] ∧ (∀ c ∈ (trimOf text '.').head?, c ≠ '.') ∧ ∀ c ∈ (trimOf text '.').getLast?, c ≠ '.' := by
  have cut : trimOf text '.' = strip (· = '.') text := by
    rw [trimOf, if_neg]
    simpa using mixed
  obtain ⟨front, back, whole, first, last⟩ := strip_spec (fun c => decide (c = '.')) text
  have kept := strip_ends (fun c => decide (c = '.')) text
  rw [cut]
  refine ⟨front, back, whole, ?_, ?_, ?_, ?_, ?_⟩
  · refine dots_of_settled (settled.inside ⟨[], strip (· = '.') text ++ back, ?_⟩) (by simpa using first)
    rw [List.nil_append, ← List.append_assoc, ← whole]
  · refine dots_of_settled (settled.inside ⟨front ++ strip (· = '.') text, [], ?_⟩) (by simpa using last)
    rw [List.append_nil, ← whole]
  · intro none
    exact mixed (by simpa using strip_eq_nil_iff.mp none)
  · simpa using kept.1
  · simpa using kept.2

theorem head?_trimOf (settled : Settled text) (mixed : ¬ ∀ c ∈ text, c = '.') :
    (∀ c ∈ (trimOf text '.').head?, isSpace c = false) ↔ ¬ [' '] <+: text ∧ ¬ ['.', ' '] <+: text := by
  obtain ⟨lead, tail, whole, before, -, present, first, -⟩ := trimOf_settled settled mixed
  obtain ⟨c, rest, shape⟩ := List.exists_cons_of_ne_nil present
  rw [shape] at whole first
  have inside : c ∈ text := by
    rw [whole]
    simp
  have blank : isSpace c = false ↔ c ≠ ' ' := by
    rw [← Bool.not_eq_true, not_iff_not]
    exact ⟨blank_of_settled settled inside, fun same => same ▸ isSpace_blank⟩
  have other : '.' ≠ c := (first c rfl).symm
  simp only [shape, List.head?_cons, Option.mem_some_iff, forall_eq']
  rw [blank, whole]
  rcases before with rfl | rfl
  · simp [List.cons_prefix_cons, other, eq_comm]
  · simp [List.cons_prefix_cons, eq_comm]

theorem getLast?_trimOf (settled : Settled text) (mixed : ¬ ∀ c ∈ text, c = '.') :
    (∀ c ∈ (trimOf text '.').getLast?, isSpace c = false) ↔ ¬ [' '] <:+ text ∧ ¬ [' ', '.'] <:+ text := by
  obtain ⟨lead, tail, whole, -, behind, present, -, last⟩ := trimOf_settled settled mixed
  obtain ⟨rest, c, shape⟩ := (List.eq_nil_or_concat _).resolve_left present
  rw [List.concat_eq_append] at shape
  rw [shape] at whole last
  have inside : c ∈ text := by
    rw [whole]
    simp
  have blank : isSpace c = false ↔ c ≠ ' ' := by
    rw [← Bool.not_eq_true, not_iff_not]
    exact ⟨blank_of_settled settled inside, fun same => same ▸ isSpace_blank⟩
  have other : '.' ≠ c := (last c (by simp)).symm
  simp only [shape, List.getLast?_concat, Option.mem_some_iff, forall_eq']
  rw [blank, whole, ← List.reverse_prefix, ← List.reverse_prefix]
  rcases behind with rfl | rfl
  · simp [List.cons_prefix_cons, other, eq_comm]
  · simp [List.cons_prefix_cons, eq_comm]

theorem trimOf_of_ends (first : ∀ c ∈ text.head?, c ≠ '.') (last : ∀ c ∈ text.getLast?, c ≠ '.') : trimOf text '.' = text := by
  unfold trimOf
  split
  next => rfl
  next => exact strip_eq_self (by simpa using first) (by simpa using last)

end Ends

section Cutting

theorem dropToUTF8_starts (rounds : Nat) (text : Text) : dropToUTF8 rounds text <+: text := by
  induction rounds generalizing text with
  | zero => exact List.prefix_rfl
  | succ rounds ih =>
    rw [dropToUTF8]
    split
    next => exact (ih text.dropLast).trans (List.dropLast_prefix text)
    next => exact List.prefix_rfl

theorem clampProviderNameLength_starts (name : Text) (maxLen : Nat) : clampProviderNameLength name maxLen <+: name := by
  unfold clampProviderNameLength
  split
  next => exact List.prefix_rfl
  next => exact (dropToUTF8_starts maxLen _).trans (List.take_prefix maxLen name)

theorem dropToUTF8_blank (rounds : Nat) (rest : Text) : ∃ left, dropToUTF8 rounds (' ' :: rest) = ' ' :: left := by
  induction rounds generalizing rest with
  | zero => exact ⟨rest, rfl⟩
  | succ rounds ih =>
    rw [dropToUTF8]
    split
    next broken =>
      cases rest with
      | nil => exact absurd broken.2 (by decide)
      | cons c more =>
        rw [List.dropLast_cons_of_ne_nil (List.cons_ne_nil _ _)]
        exact ih _
    next => exact ⟨rest, rfl⟩

theorem clampProviderNameLength_blank {maxLen : Nat} (positive : 0 < maxLen) (rest : Text) :
    ∃ left, clampProviderNameLength (' ' :: rest) maxLen = ' ' :: left := by
  unfold clampProviderNameLength
  split
  next => exact ⟨rest, rfl⟩
  next =>
    obtain ⟨room, rfl⟩ := Nat.exists_eq_add_one.mpr positive
    exact dropToUTF8_blank _ _

end Cutting

section Safety

variable {input name : Text}

structure Safe (name : Text) : Prop where
  short : name.length ≤ 64
  allowed : ∀ c ∈ name, 0x20 ≤ c.toNat ∧ c.toNat ≠ 0x7f ∧ c ∉ ['<', '>', ':', '\x22', '/', '\\', '|', '?', '*']
  first : ∀ c ∈ name.head?, isSpace c = false ∧ c ≠ '.'
  last : ∀ c ∈ name.getLast?, isSpace c = false ∧ c ≠ '.'
  device : (toUpper name).takeWhile (· ≠ '.') ∉ reservedNames
  again : sanitizeProviderName name = name

-- The name before it is cut, and after it.
def spelledName (input : Text) : Text := trimOf (cleanName '\x00' (strip isSpace input)) '.'

def cutName (input : Text) : Text := trimOf (clampProviderNameLength (spelledName input) kProviderNameMaxLen) '.'

def Rejected (input : Text) : Prop :=
  isWindowsReservedName (spelledName input) = true ∨ isWindowsReservedName (cutName input) = true

def Exposed (input : Text) : Prop :=
  strip isSpace input = ['.'] ∨ ['.', ' '] <+: strip isSpace input ∨
    ((spelledName input).length ≤ kProviderNameMaxLen ∧ [' ', '.'] <:+ strip isSpace input) ∨
    (kProviderNameMaxLen < (spelledName input).length ∧
      ([' '] <:+ clampProviderNameLength (spelledName input) kProviderNameMaxLen ∨
        [' ', '.'] <:+ clampProviderNameLength (spelledName input) kProviderNameMaxLen))

theorem head?_cleanName (last : Char) (c : Char) (rest : Text) (other : last ≠ '_') :
    (cleanName last (c :: rest)).head? = some c ∨ (cleanName last (c :: rest)).head? = some '_' := by
  rw [cleanName]
  rw [if_neg other]
  split
  next => exact .inr rfl
  next => exact .inl rfl

theorem cleanName_ends (text : Text) :
    (∀ c ∈ (cleanName '\x00' (strip isSpace text)).head?, isSpace c = false) ∧
      ∀ c ∈ (cleanName '\x00' (strip isSpace text)).getLast?, isSpace c = false := by
  obtain ⟨first, last⟩ := strip_ends isSpace text
  constructor
  · intro c there
    cases shape : strip isSpace text with
    | nil =>
      rw [shape] at there
      simp [cleanName] at there
    | cons d rest =>
      rw [shape] at there first
      rcases head?_cleanName '\x00' d rest (by decide) with kept | replaced
      · rw [kept] at there
        exact first c there
      · rw [replaced] at there
        obtain rfl := Option.some.inj there
        decide
  · intro c there
    by_cases mark : c = '_'
    · rw [mark]
      decide
    · obtain ⟨out, whole⟩ := List.getLast?_eq_some_iff.mp there
      obtain ⟨front, shape, -⟩ := cleanName_concat_inv mark whole
      exact last c (by rw [shape]; simp)

theorem cleanName_cons_inv {last c : Char} {text out : Text} (different : last ≠ '_') (other : c ≠ '_')
    (cleaned : cleanName last text = c :: out) : ∃ rest, text = c :: rest ∧ cleanName c rest = out := by
  cases text with
  | nil => simp [cleanName] at cleaned
  | cons d rest =>
    rw [cleanName, if_neg different] at cleaned
    split at cleaned
    next => exact absurd (List.cons.inj cleaned).1.symm other
    next =>
      obtain ⟨rfl, same⟩ := List.cons.inj cleaned
      exact ⟨rest, rfl, same⟩

theorem sanitizeProviderName_eq (input : Text) : sanitizeProviderName input =
    if spelledName input = [] ∨ isWindowsReservedName (spelledName input) then []
    else if cutName input = [] ∨ isWindowsReservedName (cutName input) then [] else cutName input := by
  obtain ⟨first, last⟩ := cleanName_ends input
  have stripped := strip_eq_self first last
  rw [sanitizeProviderName, stripped]
  rfl

theorem cleanName_dot_blank (text : Text) : ['.', ' '] <+: cleanName '\x00' text ↔ ['.', ' '] <+: text := by
  constructor
  · rintro ⟨out, whole⟩
    obtain ⟨rest, rfl, behind⟩ := cleanName_cons_inv (by decide) (by decide) whole.symm
    obtain ⟨more, rfl, -⟩ := cleanName_cons_inv (by decide) (by decide) behind
    exact ⟨more, rfl⟩
  · rintro ⟨rest, rfl⟩
    have kept : cleanName '\x00' ('.' :: ' ' :: rest) = '.' :: ' ' :: cleanName ' ' rest := by
      simp [cleanName, invalidNameChar]
    exact ⟨_, kept.symm⟩

theorem cleanName_blank_dot (text : Text) : [' ', '.'] <:+ cleanName '\x00' text ↔ [' ', '.'] <:+ text := by
  constructor
  · rintro ⟨out, whole⟩
    have split : out ++ [' ', '.'] = (out ++ [' ']) ++ ['.'] := by simp
    obtain ⟨front, rfl, before⟩ := cleanName_concat_inv (by decide) (whole.symm.trans split)
    obtain ⟨more, rfl, -⟩ := cleanName_concat_inv (by decide) before
    exact ⟨more, by simp⟩
  · rintro ⟨front, rfl⟩
    obtain ⟨next, whole, -⟩ := cleanName_append '\x00' front [' ', '.']
    have kept : cleanName next [' ', '.'] = [' ', '.'] := by simp [cleanName, invalidNameChar]
    exact ⟨_, by rw [whole, kept]⟩

theorem isWindowsReservedName_of_ends (present : name ≠ []) (first : ∀ c ∈ name.head?, isSpace c = false ∧ c ≠ '.')
    (last : ∀ c ∈ name.getLast?, isSpace c = false ∧ c ≠ '.') :
    isWindowsReservedName name = true ↔ (toUpper name).takeWhile (· ≠ '.') ∈ reservedNames := by
  have stripped : strip isSpace name = name := strip_eq_self (fun c there => (first c there).1) fun c there => (last c there).1
  have trimmed : trimOf name '.' = name := trimOf_of_ends (fun c there => (first c there).2) fun c there => (last c there).2
  simp [isWindowsReservedName, stripped, trimmed, present]

theorem allowed_of_settled (settled : Settled name) :
    ∀ c ∈ name, 0x20 ≤ c.toNat ∧ c.toNat ≠ 0x7f ∧ c ∉ ['<', '>', ':', '\x22', '/', '\\', '|', '?', '*'] := by
  intro c there
  cases invalid : invalidNameChar c with
  | true =>
    obtain rfl := settled.allowed c there invalid
    decide
  | false =>
    simp only [invalidNameChar, Bool.or_eq_false_iff, decide_eq_false_iff_not] at invalid
    refine ⟨by omega, invalid.1.2, fun inside => invalid.2 ?_⟩
    simp only [List.mem_cons, List.not_mem_nil, or_false] at inside ⊢
    tauto

theorem safe_iff (settled : Settled name) (present : name ≠ []) (short : name.length ≤ 64)
    (free : isWindowsReservedName name = false) (first : ∀ c ∈ name.head?, c ≠ '.') (last : ∀ c ∈ name.getLast?, c ≠ '.') :
    Safe name ↔ (∀ c ∈ name.head?, isSpace c = false) ∧ ∀ c ∈ name.getLast?, isSpace c = false := by
  constructor
  · exact fun safe => ⟨fun c there => (safe.first c there).1, fun c there => (safe.last c there).1⟩
  · rintro ⟨front, back⟩
    have opened : ∀ c ∈ name.head?, isSpace c = false ∧ c ≠ '.' := fun c there => ⟨front c there, first c there⟩
    have closed : ∀ c ∈ name.getLast?, isSpace c = false ∧ c ≠ '.' := fun c there => ⟨back c there, last c there⟩
    refine ⟨short, allowed_of_settled settled, opened, closed, ?_, ?_⟩
    · rw [← isWindowsReservedName_of_ends present opened closed, free]
      exact Bool.false_ne_true
    · have spelled : spelledName name = name := by
        rw [spelledName, strip_eq_self front back, cleanName_of_settled settled, trimOf_of_ends first last]
      have cut : cutName name = name := by
        rw [cutName, spelled, clampProviderNameLength, kProviderNameMaxLen, if_pos short, trimOf_of_ends first last]
      simp [sanitizeProviderName_eq, spelled, cut, present, free]

theorem head?_of_prefix {part : Text} (within : part <+: name) (present : part ≠ []) : part.head? = name.head? := by
  obtain ⟨behind, rfl⟩ := within
  rw [List.head?_append_of_ne_nil _ present]

theorem cutName_ends (spelled : Settled (spelledName input)) (first : ∀ c ∈ (spelledName input).head?, c ≠ '.')
    (present : clampProviderNameLength (spelledName input) kProviderNameMaxLen ≠ []) :
    Settled (cutName input) ∧ cutName input ≠ [] ∧ (cutName input).length ≤ 64 ∧
      (∀ c ∈ (cutName input).head?, c ≠ '.') ∧ (∀ c ∈ (cutName input).getLast?, c ≠ '.') ∧
      ((∀ c ∈ (cutName input).head?, isSpace c = false) ↔ ∀ c ∈ (spelledName input).head?, isSpace c = false) ∧
      ((∀ c ∈ (cutName input).getLast?, isSpace c = false) ↔
        ¬([' '] <:+ clampProviderNameLength (spelledName input) kProviderNameMaxLen ∨
          [' ', '.'] <:+ clampProviderNameLength (spelledName input) kProviderNameMaxLen)) := by
  have within := clampProviderNameLength_starts (spelledName input) kProviderNameMaxLen
  have short := length_clampProviderNameLength_le (spelledName input) kProviderNameMaxLen
  have settled := spelled.inside within.isInfix
  have same := head?_of_prefix within present
  rw [cutName]
  generalize clampProviderNameLength (spelledName input) kProviderNameMaxLen = clamped at *
  have mixed : ¬ ∀ c ∈ clamped, c = '.' := by
    intro dots
    obtain ⟨c, rest, rfl⟩ := List.exists_cons_of_ne_nil present
    exact first c (by rw [← same]; rfl) (dots c List.mem_cons_self)
  obtain ⟨lead, tail, whole, before, behind, left, opened, closed⟩ := trimOf_settled settled mixed
  have start : lead = [] := by
    rcases before with none | dot
    · exact none
    · have dotted : clamped.head? = some '.' := by
        rw [whole, dot]
        rfl
      exact absurd rfl (first '.' (by rw [← same, dotted]; rfl))
  refine ⟨settled.inside ⟨lead, tail, whole.symm⟩, left, ?_, opened, closed, ?_, ?_⟩
  · exact (length_trimOf_le clamped '.').trans short
  · have heads : (trimOf clamped '.').head? = (spelledName input).head? := by
      rw [← same]
      conv_rhs => rw [whole, start, List.nil_append, List.head?_append_of_ne_nil _ left]
    rw [heads]
  · rw [getLast?_trimOf settled mixed, not_or]

theorem sanitize_blank (blank : strip isSpace input = []) : sanitizeProviderName input = [] ∧ ¬ Exposed input := by
  have spelled : spelledName input = [] := by rw [spelledName, blank, cleanName, trimOf, List.all_nil, if_pos rfl]
  refine ⟨by rw [sanitizeProviderName_eq, if_pos (.inl spelled)], ?_⟩
  simp [Exposed, blank, spelled]

theorem sanitize_dot (dot : strip isSpace input = ['.']) : sanitizeProviderName input = ['.'] ∧ Exposed input := by
  have spelled : spelledName input = ['.'] := by
    rw [spelledName, dot]
    decide
  refine ⟨?_, .inl dot⟩
  rw [sanitizeProviderName_eq, cutName, spelled]
  decide

theorem not_safe_dot : ¬ Safe ['.'] := fun safe => (safe.first '.' rfl).2 rfl

theorem sanitize_short (settled : Settled (spelledName input)) (present : spelledName input ≠ [])
    (first : ∀ c ∈ (spelledName input).head?, c ≠ '.') (last : ∀ c ∈ (spelledName input).getLast?, c ≠ '.')
    (short : (spelledName input).length ≤ kProviderNameMaxLen) (accepted : ¬ Rejected input) :
    sanitizeProviderName input ≠ [] ∧ (Safe (sanitizeProviderName input) ↔
      (∀ c ∈ (spelledName input).head?, isSpace c = false) ∧ ∀ c ∈ (spelledName input).getLast?, isSpace c = false) := by
  obtain ⟨whole, -⟩ := not_or.mp accepted
  have cut : cutName input = spelledName input := by
    rw [cutName, clampProviderNameLength, if_pos short, trimOf_of_ends first last]
  have result : sanitizeProviderName input = spelledName input := by
    rw [sanitizeProviderName_eq, cut, if_neg (not_or.mpr ⟨present, whole⟩), if_neg (not_or.mpr ⟨present, whole⟩)]
  rw [result]
  exact ⟨present, safe_iff settled present short (Bool.not_eq_true _ ▸ whole) first last⟩

theorem sanitize_long (settled : Settled (spelledName input)) (first : ∀ c ∈ (spelledName input).head?, c ≠ '.')
    (present : clampProviderNameLength (spelledName input) kProviderNameMaxLen ≠ []) (accepted : ¬ Rejected input) :
    sanitizeProviderName input ≠ [] ∧ (Safe (sanitizeProviderName input) ↔
      (∀ c ∈ (spelledName input).head?, isSpace c = false) ∧
        ¬([' '] <:+ clampProviderNameLength (spelledName input) kProviderNameMaxLen ∨
          [' ', '.'] <:+ clampProviderNameLength (spelledName input) kProviderNameMaxLen)) := by
  obtain ⟨whole, part⟩ := not_or.mp accepted
  obtain ⟨kept, left, short, opened, closed, front, back⟩ := cutName_ends settled first present
  have spelled : spelledName input ≠ [] := by
    intro none
    rw [none] at present
    exact present (List.prefix_nil.mp (clampProviderNameLength_starts [] _))
  have result : sanitizeProviderName input = cutName input := by
    rw [sanitizeProviderName_eq, if_neg (not_or.mpr ⟨spelled, whole⟩), if_neg (not_or.mpr ⟨left, part⟩)]
  rw [result, ← front, ← back]
  exact ⟨left, safe_iff kept left short (Bool.not_eq_true _ ▸ part) opened closed⟩

theorem sanitize_nothing (nothing : clampProviderNameLength (spelledName input) kProviderNameMaxLen = []) :
    sanitizeProviderName input = [] ∧ ∀ c ∈ (spelledName input).head?, c ≠ ' ' := by
  constructor
  · have cut : cutName input = [] := by rw [cutName, nothing, trimOf, List.all_nil, if_pos rfl]
    simp [sanitizeProviderName_eq, cut]
  · intro c there same
    cases shape : spelledName input with
    | nil => simp [shape] at there
    | cons d rest =>
      rw [shape, same] at there
      obtain rfl := Option.some.inj there
      obtain ⟨left, kept⟩ := clampProviderNameLength_blank (by decide : 0 < kProviderNameMaxLen) rest
      rw [shape, kept] at nothing
      cases nothing

theorem sanitize_safe_iff (input : Text) :
    (sanitizeProviderName input = [] ∨ Safe (sanitizeProviderName input)) ↔ Rejected input ∨ ¬ Exposed input := by
  by_cases rejected : Rejected input
  · have empty : sanitizeProviderName input = [] := by
      rcases rejected with device | device
      · simp [sanitizeProviderName_eq, device]
      · simp [sanitizeProviderName_eq, device]
    simp [rejected, empty]
  rw [or_iff_right rejected]
  have settled : Settled (cleanName '\x00' (strip isSpace input)) := settled_cleanName _ _
  obtain ⟨front, back⟩ := cleanName_ends input
  by_cases dots : ∀ c ∈ cleanName '\x00' (strip isSpace input), c = '.'
  · rcases dots_of_settled settled dots with nothing | dot
    · obtain ⟨empty, hidden⟩ := sanitize_blank (cleanName_eq_nil_iff.mp nothing)
      simp [empty, hidden]
    · obtain ⟨before, shape, none⟩ := @cleanName_concat_inv _ [] _ (by decide) dot
      rw [cleanName_eq_nil_iff.mp none] at shape
      obtain ⟨single, exposed⟩ := sanitize_dot shape
      simp [single, exposed, not_safe_dot]
  obtain ⟨lead, tail, whole, -, -, present, first, last⟩ := trimOf_settled settled dots
  rw [← spelledName] at whole present first last
  have inner : Settled (spelledName input) := settled.inside ⟨lead, tail, whole.symm⟩
  have named : strip isSpace input ≠ ['.'] := by
    intro dot
    have single : cleanName '\x00' ['.'] = ['.'] := by decide
    rw [dot, single] at dots
    exact dots fun c there => List.mem_singleton.mp there
  have opened : (∀ c ∈ (spelledName input).head?, isSpace c = false) ↔ ¬ ['.', ' '] <+: strip isSpace input := by
    rw [spelledName, head?_trimOf settled dots, cleanName_dot_blank, and_iff_right]
    rintro ⟨behind, shape⟩
    exact absurd (front ' ' (by rw [← shape]; rfl)) (by decide)
  have closed : (∀ c ∈ (spelledName input).getLast?, isSpace c = false) ↔ ¬ [' ', '.'] <:+ strip isSpace input := by
    rw [spelledName, getLast?_trimOf settled dots, cleanName_blank_dot, and_iff_right]
    rintro ⟨before, shape⟩
    exact absurd (back ' ' (by rw [← shape]; simp)) (by decide)
  rcases Nat.lt_or_ge kProviderNameMaxLen (spelledName input).length with long | short
  · by_cases nothing : clampProviderNameLength (spelledName input) kProviderNameMaxLen = []
    · obtain ⟨empty, bare⟩ := sanitize_nothing nothing
      have visible : ∀ c ∈ (spelledName input).head?, isSpace c = false := by
        intro c there
        by_contra space
        exact bare c there (blank_of_settled inner (List.mem_of_mem_head? there) (Bool.not_eq_false _ ▸ space))
      simp [empty, Exposed, named, nothing, opened.mp visible, Nat.not_le.mpr long]
    · obtain ⟨some, safe⟩ := sanitize_long inner first nothing rejected
      rw [or_iff_right some, safe, opened]
      simp [Exposed, named, long, Nat.not_le.mpr long]
  · obtain ⟨some, safe⟩ := sanitize_short inner present first last short rejected
    rw [or_iff_right some, safe, opened, closed]
    simp [Exposed, named, short, Nat.not_lt.mpr short]

end Safety

section Requests

variable {base : Text} {used : List Text}

def providerNames (bases : List Text) : List Text := nameAll id reserveProviderName bases []

def stashProviderNames (bases reservedKeys : List Text) : List Text := nameAll toLower reserveStashProviderName bases reservedKeys

-- The names that are tried for a request, one after the other.
def triedName (base : Text) : Nat → Text
  | 0 => clashBaseName base
  | number + 1 => clashCandidate (clashBaseName base) (number + 1)

def CaseFree (base : Text) (used : List Text) : Prop :=
  ∀ number, (∀ earlier < number, triedName base earlier ∈ used) →
    ∀ name ∈ used, toLower name = toLower (triedName base number) → name = triedName base number

-- At every request, after the names that the requests before it were given.
def AllCaseFree (bases used : List Text) : Prop :=
  ∀ before base, before ++ [base] <+: bases → CaseFree base (nameAll id reserveProviderName before used ++ used)

theorem length_orDefault_le {fallback name : Text} {limit : Nat} (left : fallback.length ≤ limit) (right : name.length ≤ limit) :
    (orDefault fallback name).length ≤ limit := by
  unfold orDefault
  split
  next => exact left
  next => exact right

theorem length_digits_le {number : Nat} (few : number ≤ 2 ^ 64) : (decimal number).length ≤ 20 :=
  (Nat.length_toDigits_le_iff (by decide) (by decide)).mpr (by norm_num at few ⊢; omega)

theorem length_numbered_le {name : Text} {number : Nat} (few : number ≤ 2 ^ 64)
    (short : name.length ≤ 64 - ('_' :: decimal number).length) : (numbered name number).length ≤ 64 := by
  have digits := length_digits_le few
  rw [numbered, List.length_append]
  rw [List.length_cons] at short ⊢
  omega

theorem length_reserveName_le {key : Text → Text} {candidate : Nat → Text} {name : Text} (short : name.length ≤ 64)
    (others : ∀ number ≤ 2 ^ 64, (candidate number).length ≤ 64) (room : used.length < 2 ^ 64) :
    (reserveName key candidate name used).length ≤ 64 := by
  unfold reserveName
  split
  next =>
    obtain ⟨found, same, -, most, -⟩ := @firstFree_spec Text Text _ key used candidate used.length 1
    rw [freshName, same]
    exact others found (by omega)
  next => exact short

theorem length_reserveProviderName_le (base : Text) (used : List Text) (room : used.length < 2 ^ 64) :
    (reserveProviderName base used).length ≤ 64 := by
  refine length_reserveName_le ?_ (fun number few => length_numbered_le few ?_) room
  · refine length_orDefault_le (by decide) ((length_trimOf_le _ _).trans ?_)
    exact length_clampProviderNameLength_le base 64
  · refine length_orDefault_le (length_clampProviderNameLength_le _ _) ((length_trimOf_le _ _).trans ?_)
    exact length_clampProviderNameLength_le _ _

theorem length_reserveStashProviderName_le (base : Text) (used : List Text) (room : used.length < 2 ^ 64) :
    (reserveStashProviderName base used).length ≤ 64 := by
  refine length_reserveName_le ?_ (fun number few => length_numbered_le few ?_) room
  · exact length_orDefault_le (by decide) (length_clampProviderNameLength_le base 64)
  · exact length_clampProviderNameLength_le _ _

theorem reserveProviderName_spec (base : Text) (used : List Text) :
    ∃ found, reserveProviderName base used = triedName base found ∧ (∀ earlier < found, triedName base earlier ∈ used) ∧
      triedName base found ∉ used := by
  have free := reserveProviderName_not_mem base used
  by_cases taken : clashBaseName base ∈ used
  · obtain ⟨found, same, least, -, before, -⟩ :=
      @firstFree_spec Text Text _ id used (clashCandidate (clashBaseName base)) used.length 1
    obtain ⟨number, rfl⟩ := Nat.exists_eq_add_of_le' least
    have given : reserveProviderName base used = triedName base (number + 1) := by
      rw [reserveProviderName, reserveName, if_pos (by exact taken), freshName, same]
      rfl
    refine ⟨number + 1, given, ?_, given ▸ free⟩
    rintro (_ | earlier) within
    · exact taken
    · exact before (earlier + 1) (by omega) within
  · have given : reserveProviderName base used = triedName base 0 := by
      rw [reserveProviderName, reserveName, if_neg (by exact taken)]
      rfl
    exact ⟨0, given, fun earlier within => absurd within (Nat.not_lt_zero earlier), given ▸ free⟩

theorem reserveProviderName_iff (distinct : (used.map toLower).Nodup) :
    toLower (reserveProviderName base used) ∉ used.map toLower ↔ CaseFree base used := by
  obtain ⟨found, given, before, free⟩ := reserveProviderName_spec base used
  rw [given]
  constructor
  · intro apart number tried name there same
    rcases Nat.lt_trichotomy number found with earlier | rfl | later
    · exact List.inj_on_of_nodup_map distinct there (before number earlier) same
    · exact absurd (List.mem_map.mpr ⟨name, there, same⟩) apart
    · exact absurd (tried found later) free
  · intro cases inside
    obtain ⟨name, there, same⟩ := List.mem_map.mp inside
    exact free (cases found before name there same ▸ there)

theorem CaseFree.congr {others : List Text} (same : ∀ name, name ∈ used ↔ name ∈ others) : CaseFree base used ↔ CaseFree base others := by
  simp only [CaseFree, same]

theorem allCaseFree_cons (base : Text) (rest used : List Text) :
    AllCaseFree (base :: rest) used ↔ CaseFree base used ∧ AllCaseFree rest (reserveProviderName base used :: used) := by
  have behind : ∀ before next, CaseFree next (nameAll id reserveProviderName (base :: before) used ++ used) ↔
      CaseFree next (nameAll id reserveProviderName before (reserveProviderName base used :: used) ++
        reserveProviderName base used :: used) := by
    intro before next
    refine CaseFree.congr fun name => ?_
    simp only [nameAll, id, List.cons_append, List.mem_cons, List.mem_append]
    exact or_left_comm
  constructor
  · intro free
    refine ⟨free [] base (List.prefix_cons_inj base |>.mpr rest.nil_prefix), fun before next within => ?_⟩
    exact (behind before next).mp (free (base :: before) next (List.prefix_cons_inj base |>.mpr within))
  · rintro ⟨here, later⟩ (_ | ⟨first, before⟩) next within
    · obtain ⟨rfl, -⟩ := List.cons_prefix_cons.mp within
      exact here
    · obtain ⟨rfl, inside⟩ := List.cons_prefix_cons.mp within
      exact (behind before next).mpr (later before next inside)

theorem nodup_lower_iff (bases : List Text) (distinct : (used.map toLower).Nodup) :
    (((nameAll id reserveProviderName bases used).map toLower).Nodup ∧
        ∀ name ∈ nameAll id reserveProviderName bases used, toLower name ∉ used.map toLower) ↔ AllCaseFree bases used := by
  induction bases generalizing used with
  | nil =>
    have none : AllCaseFree [] used := by
      intro before base within
      simpa using List.prefix_nil.mp within
    simp [nameAll, none]
  | cons base rest ih =>
    rw [nameAll, allCaseFree_cons, ← reserveProviderName_iff distinct, List.map_cons, List.nodup_cons, List.forall_mem_cons, id]
    have longer (free : toLower (reserveProviderName base used) ∉ used.map toLower) :
        ((reserveProviderName base used :: used).map toLower).Nodup := List.nodup_cons.mpr ⟨free, distinct⟩
    constructor
    · rintro ⟨⟨new, others⟩, free, apart⟩
      refine ⟨free, (ih (longer free)).mp ⟨others, fun name there inside => ?_⟩⟩
      rcases List.mem_cons.mp inside with same | inside
      · exact new (List.mem_map.mpr ⟨name, there, same⟩)
      · exact apart name there inside
    · rintro ⟨free, later⟩
      obtain ⟨others, apart⟩ := (ih (longer free)).mpr later
      refine ⟨⟨fun again => ?_, others⟩, free, fun name there inside => apart name there (List.mem_cons_of_mem _ inside)⟩
      obtain ⟨name, there, same⟩ := List.mem_map.mp again
      exact apart name there (same ▸ List.mem_cons_self)

-- The suffix of both loops is an `int`.
theorem provider_names_iff (input base : Text) (used bases reservedKeys : List Text) :
    (sanitizeProviderName input = [] ∨ Safe (sanitizeProviderName input) ↔ Rejected input ∨ ¬ Exposed input) ∧
    reserveProviderName base used ∉ used ∧
    toLower (reserveStashProviderName base reservedKeys) ∉ reservedKeys ∧
    (bases.length < 2 ^ 31 → ∀ name ∈ providerNames bases, name.length ≤ 64) ∧
    (reservedKeys.length + bases.length < 2 ^ 31 → ∀ name ∈ stashProviderNames bases reservedKeys, name.length ≤ 64) ∧
    (((stashProviderNames bases reservedKeys).map toLower).Nodup ∧
      ∀ name ∈ stashProviderNames bases reservedKeys, toLower name ∉ reservedKeys) ∧
    (((providerNames bases).map toLower).Nodup ↔ AllCaseFree bases []) := by
  refine ⟨sanitize_safe_iff input, reserveProviderName_not_mem base used, reserveStashProviderName_not_mem base reservedKeys, ?_, ?_, ?_, ?_⟩
  · exact fun few => forall_mem_nameAll_of_room length_reserveProviderName_le bases [] (by rw [List.length_nil]; omega)
  · exact fun few => forall_mem_nameAll_of_room length_reserveStashProviderName_le bases reservedKeys (by omega)
  · exact nameAll_nodup reserveStashProviderName_not_mem bases reservedKeys
  · have run := @nodup_lower_iff [] bases List.nodup_nil
    simpa [providerNames] using run

theorem provider_names_unsafe :
    ¬ (sanitizeProviderName (chars ". a") = [] ∨ Safe (sanitizeProviderName (chars ". a"))) ∧
    ¬ ((providerNames [chars "HK", chars "hk"]).map toLower).Nodup := by
  have blank : sanitizeProviderName (chars ". a") = chars " a" := by decide
  have same : (providerNames [chars "HK", chars "hk"]).map toLower = [chars "hk", chars "hk"] := by decide
  rw [blank, same]
  refine ⟨?_, by simp⟩
  rintro (empty | safe)
  · cases empty
  · exact absurd (safe.first ' ' rfl).1 (by decide)

end Requests

end SubConverter.Handler
