import Mathlib.Data.List.Perm.Basic
import Mathlib.Data.List.TakeWhile
import SubConverter.Generator.ExternalRules

set_option autoImplicit false

namespace SubConverter.Generator

open Handler (isSpace)

section Terminal

variable {rule type : Text} {allowedRuleTypes : List Text} {requireTarget : Bool}

theorem plain_of_trim (plain : ∀ c ∈ trimAscii type, c ∉ levelMarks ∧ c ≠ ',') : ∀ c ∈ type, c ∉ levelMarks ∧ c ≠ ',' := by
  obtain ⟨front, back, whole, first, last⟩ := strip_spec isSpace type
  intro c there
  rw [whole] at there
  rcases List.mem_append.mp there with there | there
  · rcases List.mem_append.mp there with there | there
    · exact not_mark_of_isSpace (first c there)
    · exact plain c there
  · exact not_mark_of_isSpace (last c there)

theorem head_of_plain (plain : ∀ c ∈ trimAscii (rule.takeWhile (· ≠ ',')), c ∉ levelMarks ∧ c ≠ ',') {fields : List Text}
    (balanced : splitTopLevelCommas rule = some fields) : fields.headD [] = trimAscii (rule.takeWhile (· ≠ ',')) := by
  have inside : Level.within {} (rule.takeWhile (· ≠ ',')) = some {} := (within_plain (plain_of_trim plain) {}).mpr rfl
  have alone := split_of_within inside
  have whole : rule.takeWhile (· ≠ ',') ++ rule.dropWhile (· ≠ ',') = rule := List.takeWhile_append_dropWhile
  cases behind : rule.dropWhile (· ≠ ',') with
  | nil =>
    have single : rule.takeWhile (· ≠ ',') = rule := by rwa [behind, List.append_nil] at whole
    rw [single] at alone ⊢
    rw [← Option.some.inj (alone.symm.trans balanced)]
    rfl
  | cons mark tail =>
    have comma : mark = ',' := by
      have stops := List.head?_dropWhile_not (· ≠ ',') rule
      rw [behind] at stops
      simpa using stops
    subst comma
    have cut := splitTopLevelCommas_append alone tail
    rw [← behind, whole, balanced] at cut
    obtain ⟨parts, -, same⟩ := Option.map_eq_some_iff.mp cut.symm
    rw [← same]
    rfl

theorem type_of_isTerminalRule (terminal : isTerminalRule rule = true) :
    trimAscii (rule.takeWhile (· ≠ ',')) = chars "MATCH" ∨ trimAscii (rule.takeWhile (· ≠ ',')) = chars "FINAL" := by
  simpa [isTerminalRule] using terminal

theorem not_isTerminalRule_of_accepted (accepted : Accepted allowedRuleTypes requireTarget rule) :
    isTerminalRule rule = false := by
  obtain ⟨fields, balanced, valid⟩ := accepted
  by_contra terminal
  have type := type_of_isTerminalRule (by simpa using terminal)
  have plain : ∀ c ∈ trimAscii (rule.takeWhile (· ≠ ',')), c ∉ levelMarks ∧ c ≠ ',' := by
    have letters : (chars "MATCH" ++ chars "FINAL").all fun c => !levelMarks.contains c && c != ',' := by decide
    intro c there
    have listed : c ∈ chars "MATCH" ++ chars "FINAL" := by
      rcases type with type | type <;> rw [type] at there <;> simp [there]
    simpa using List.all_eq_true.mp letters c listed
  have head := head_of_plain plain balanced
  exact valid.notTerminal (head ▸ type)

end Terminal

section Merging

variable {rules userPrepend prepend original generated append : List Text}

def External (load : Text → YamlDocument) (rules : List Text) : Prop :=
  ∀ rule ∈ rules, ∃ content sourceIdentifier allowedRuleTypes requireTarget parsed,
    parseExternalClashRules load content sourceIdentifier allowedRuleTypes requireTarget = .ok parsed ∧ rule ∈ parsed

theorem External.of_parsed {load : Text → YamlDocument} {content sourceIdentifier : Text} {allowedRuleTypes : List Text}
    {requireTarget : Bool} (read : parseExternalClashRules load content sourceIdentifier allowedRuleTypes requireTarget = .ok rules) :
    External load rules :=
  fun _ there => ⟨content, sourceIdentifier, allowedRuleTypes, requireTarget, rules, read, there⟩

theorem External.passes {load : Text → YamlDocument} (external : External load rules) :
    ∀ rule ∈ rules, isTerminalRule rule = false := by
  intro rule there
  obtain ⟨content, sourceIdentifier, allowedRuleTypes, requireTarget, parsed, read, among⟩ := external rule there
  obtain ⟨candidates, -, accepted, -⟩ := parseExternalClashRules_accepted load read
  exact not_isTerminalRule_of_accepted (accepted rule among)

theorem splitAtFirstTerminal_eq (rules : List Text) :
    splitAtFirstTerminal rules = (rules.takeWhile fun rule => !isTerminalRule rule, rules.dropWhile fun rule => !isTerminalRule rule) :=
  List.span_eq_takeWhile_dropWhile _ rules

theorem splitAtFirstTerminal_whole (rules : List Text) :
    (splitAtFirstTerminal rules).1 ++ (splitAtFirstTerminal rules).2 = rules := by
  rw [splitAtFirstTerminal_eq]
  exact List.takeWhile_append_dropWhile

theorem splitAtFirstTerminal_passes (rules : List Text) : ∀ rule ∈ (splitAtFirstTerminal rules).1, isTerminalRule rule = false := by
  intro rule there
  rw [splitAtFirstTerminal_eq] at there
  simpa using List.mem_takeWhile_imp there

theorem splitAtFirstTerminal_append (passes : ∀ rule ∈ rules, isTerminalRule rule = false) (tail : List Text) :
    (splitAtFirstTerminal (rules ++ tail)).1 = rules ++ (splitAtFirstTerminal tail).1 := by
  simp only [splitAtFirstTerminal_eq]
  exact List.takeWhile_append_of_pos fun rule there => by simp [passes rule there]

def orderWithoutUserPrepend (prepend original generated append : List Text) : List Text :=
  prepend ++ (splitAtFirstTerminal original).1 ++ (splitAtFirstTerminal generated).1 ++ append ++
    (splitAtFirstTerminal original).2 ++ (splitAtFirstTerminal generated).2

theorem mergeClashRules_eq (userPrepend prepend original generated append : List Text) :
    mergeClashRules userPrepend prepend original generated append =
      userPrepend ++ orderWithoutUserPrepend prepend original generated append := by
  simp [mergeClashRules, orderWithoutUserPrepend]

structure KeepsPriority (userPrepend prepend original generated append merged : List Text) : Prop where
  permutation : merged.Perm (userPrepend ++ prepend ++ original ++ generated ++ append)
  ordered : ∀ input ∈ [userPrepend, prepend, original, generated, append], input.Sublist merged
  ahead : ∃ behind, merged = userPrepend ++ prepend ++ behind ∧ generated.Sublist behind
  reachable : (userPrepend ++ prepend ++ append).Sublist (splitAtFirstTerminal merged).1
  tail : (splitAtFirstTerminal generated).2 <:+ merged
  unprefixed : userPrepend = [] → merged = orderWithoutUserPrepend prepend original generated append

theorem mergeClashRules_perm (userPrepend prepend original generated append : List Text) :
    (mergeClashRules userPrepend prepend original generated append).Perm
      (userPrepend ++ prepend ++ original ++ generated ++ append) := by
  rw [List.perm_iff_count]
  intro rule
  have counted (rules : List Text) :
      rules.count rule = (splitAtFirstTerminal rules).1.count rule + (splitAtFirstTerminal rules).2.count rule := by
    rw [← List.count_append, splitAtFirstTerminal_whole]
  have originals := counted original
  have generateds := counted generated
  simp only [mergeClashRules, List.count_append]
  omega

theorem mergeClashRules_front (first : ∀ rule ∈ userPrepend, isTerminalRule rule = false)
    (second : ∀ rule ∈ prepend, isTerminalRule rule = false) (last : ∀ rule ∈ append, isTerminalRule rule = false) :
    ∃ front, (splitAtFirstTerminal (mergeClashRules userPrepend prepend original generated append)).1 =
      userPrepend ++ prepend ++ (splitAtFirstTerminal original).1 ++ (splitAtFirstTerminal generated).1 ++ append ++ front := by
  have passes : ∀ rule ∈ userPrepend ++ prepend ++ (splitAtFirstTerminal original).1 ++ (splitAtFirstTerminal generated).1 ++ append,
      isTerminalRule rule = false := by
    intro rule there
    simp only [List.mem_append] at there
    rcases there with (((there | there) | there) | there) | there
    · exact first rule there
    · exact second rule there
    · exact splitAtFirstTerminal_passes original rule there
    · exact splitAtFirstTerminal_passes generated rule there
    · exact last rule there
  have cut := splitAtFirstTerminal_append passes ((splitAtFirstTerminal original).2 ++ (splitAtFirstTerminal generated).2)
  exact ⟨_, by simpa [mergeClashRules] using cut⟩

theorem mergeClashRules_ordered (userPrepend prepend original generated append : List Text) :
    ∀ input ∈ [userPrepend, prepend, original, generated, append],
      input.Sublist (mergeClashRules userPrepend prepend original generated append) := by
  have originals : original.Sublist ((splitAtFirstTerminal original).1 ++ (splitAtFirstTerminal original).2) := by
    rw [splitAtFirstTerminal_whole]
  have generateds : generated.Sublist ((splitAtFirstTerminal generated).1 ++ (splitAtFirstTerminal generated).2) := by
    rw [splitAtFirstTerminal_whole]
  intro input there
  simp only [List.mem_cons, List.not_mem_nil, or_false] at there
  simp only [mergeClashRules, List.append_assoc]
  rcases there with rfl | rfl | rfl | rfl | rfl
  · exact List.sublist_append_left _ _
  · exact List.sublist_append_of_sublist_right (List.sublist_append_left _ _)
  · refine originals.trans (List.sublist_append_of_sublist_right (List.sublist_append_of_sublist_right ?_))
    refine (List.Sublist.refl _).append (List.sublist_append_of_sublist_right (List.sublist_append_of_sublist_right ?_))
    exact List.sublist_append_left _ _
  · refine generateds.trans (List.sublist_append_of_sublist_right (List.sublist_append_of_sublist_right
      (List.sublist_append_of_sublist_right ?_)))
    refine (List.Sublist.refl _).append (List.sublist_append_of_sublist_right (List.sublist_append_of_sublist_right ?_))
    exact List.Sublist.refl _
  · refine List.sublist_append_of_sublist_right (List.sublist_append_of_sublist_right (List.sublist_append_of_sublist_right
      (List.sublist_append_of_sublist_right ?_)))
    exact List.sublist_append_left _ _

theorem mergeClashRules_keeps_priority (load : Text → YamlDocument) (userPrepend prepend original generated append : List Text)
    (external : ∀ rules ∈ [userPrepend, prepend, append], External load rules) :
    KeepsPriority userPrepend prepend original generated append
      (mergeClashRules userPrepend prepend original generated append) := by
  have first := (external userPrepend (by simp)).passes
  have second := (external prepend (by simp)).passes
  have last := (external append (by simp)).passes
  constructor
  case permutation => exact mergeClashRules_perm userPrepend prepend original generated append
  case ordered => exact mergeClashRules_ordered userPrepend prepend original generated append
  case ahead =>
    refine ⟨(splitAtFirstTerminal original).1 ++ (splitAtFirstTerminal generated).1 ++ append ++
      (splitAtFirstTerminal original).2 ++ (splitAtFirstTerminal generated).2, by simp [mergeClashRules], ?_⟩
    have whole := splitAtFirstTerminal_whole generated
    conv_lhs => rw [← whole]
    simp only [List.append_assoc]
    refine List.sublist_append_of_sublist_right ((List.Sublist.refl _).append ?_)
    exact List.sublist_append_of_sublist_right (List.sublist_append_right _ _)
  case reachable =>
    obtain ⟨front, cut⟩ := @mergeClashRules_front userPrepend prepend original generated append first second last
    rw [cut]
    simp only [List.append_assoc]
    refine (List.Sublist.refl _).append ((List.Sublist.refl _).append ?_)
    exact List.sublist_append_of_sublist_right (List.sublist_append_of_sublist_right (List.sublist_append_left _ _))
  case tail => exact List.suffix_append _ _
  case unprefixed =>
    rintro rfl
    exact mergeClashRules_eq [] prepend original generated append

theorem mergeClashRules_keeps_priority_two_terminals :
    KeepsPriority [chars "DOMAIN,top.example,Proxy"] [chars "DOMAIN,first.example,DIRECT"] [chars "MATCH,Base"]
      [chars "RULE-SET,generated,Proxy", chars " FINAL ,Generated", chars "DOMAIN,late.example,DIRECT"]
      [chars "DOMAIN,last.example,DIRECT"]
      (mergeClashRules [chars "DOMAIN,top.example,Proxy"] [chars "DOMAIN,first.example,DIRECT"] [chars "MATCH,Base"]
        [chars "RULE-SET,generated,Proxy", chars " FINAL ,Generated", chars "DOMAIN,late.example,DIRECT"]
        [chars "DOMAIN,last.example,DIRECT"]) := by
  have top : parseExternalClashRules (fun _ => .other) (chars "DOMAIN,top.example,Proxy") [] clashRuleTypes true =
      .ok [chars "DOMAIN,top.example,Proxy"] := by decide
  have first : parseExternalClashRules (fun _ => .other) (chars "DOMAIN,first.example,DIRECT") [] clashRuleTypes true =
      .ok [chars "DOMAIN,first.example,DIRECT"] := by decide
  have last : parseExternalClashRules (fun _ => .other) (chars "DOMAIN,last.example,DIRECT") [] clashRuleTypes true =
      .ok [chars "DOMAIN,last.example,DIRECT"] := by decide
  apply mergeClashRules_keeps_priority (fun _ => .other)
  intro rules there
  simp only [List.mem_cons, List.not_mem_nil, or_false] at there
  rcases there with rfl | rfl | rfl
  · exact External.of_parsed top
  · exact External.of_parsed first
  · exact External.of_parsed last

end Merging

end SubConverter.Generator
