import SubConverter.Web.SubLink

set_option autoImplicit false

namespace SubConverter.Web

section Sources

variable {text : Text} {sources : List Text}

theorem trim_trim (text : Text) : trim (trim text) = trim text := strip_narrow (fun _ blank => blank) text

theorem trim_dropReturn (line : Text) : trim (dropReturn line) = trim line := by
  unfold dropReturn
  split
  next ends =>
    have whole : line.dropLast ++ ['\r'] = line := List.dropLast_append_getLast? '\r' ends
    conv_rhs => rw [← whole]
    exact (strip_back (List.forall_mem_singleton.mpr (by decide)) _).symm
  next => rfl

theorem splitSourceUrls_eq (text : Text) : splitSourceUrls text = ((text.splitOn '\n').map trim).filter fun line => line ≠ [] := by
  obtain ⟨front, last, parts⟩ := (List.eq_nil_or_concat (text.splitOn '\n')).resolve_left (List.splitOn_ne_nil '\n' text)
  have same : (splitLines text).map trim = (text.splitOn '\n').map trim := by
    simp only [splitLines, parts, List.concat_eq_append, List.dropLast_concat, List.getLast?_concat, Option.toList_some,
      List.map_append, List.map_map]
    exact congrArg (· ++ _) (List.map_congr_left fun line _ => trim_dropReturn line)
  rw [splitSourceUrls, same]

theorem unbroken_splitSourceUrls {line : Text} (there : line ∈ splitSourceUrls text) : '\n' ∉ line := by
  rw [splitSourceUrls_eq] at there
  obtain ⟨part, inside, rfl⟩ := List.mem_map.mp (List.mem_of_mem_filter there)
  exact not_mem_trim (not_mem_of_mem_splitOn inside)

def Kept (text : Text) : Prop := text ≠ [] ∧ trim text = text

instance (text : Text) : Decidable (Kept text) := inferInstanceAs (Decidable (_ ∧ _))

theorem splitSourceUrls_join (kept : ∀ source ∈ sources, Kept source) (unbroken : ∀ source ∈ sources, '\n' ∉ source) :
    splitSourceUrls (['\n'].intercalate sources) = sources := by
  rw [splitSourceUrls_eq]
  by_cases none : sources = []
  · subst none
    rfl
  · rw [List.splitOn_intercalate _ unbroken none, List.map_congr_left fun source there => (kept source there).2, List.map_id',
      List.filter_eq_self]
    exact fun source there => by simpa using (kept source there).1

def sourcesOf (text : Text) : List Text := (splitSourceUrls text).flatMap fun line => line.splitOn '|'

theorem joinSourceUrlsForWire_eq (text : Text) : joinSourceUrlsForWire text = ['|'].intercalate (sourcesOf text) := by
  by_cases none : splitSourceUrls text = []
  · rw [joinSourceUrlsForWire, sourcesOf, none, List.flatMap_nil]
  · rw [joinSourceUrlsForWire, sourcesOf, ← splitOn_join none, List.intercalate_splitOn]

theorem unbroken_sourcesOf {source : Text} (there : source ∈ sourcesOf text) : '\n' ∉ source ∧ '|' ∉ source := by
  obtain ⟨line, inside, part⟩ := List.mem_flatMap.mp there
  exact ⟨fun newline => unbroken_splitSourceUrls inside (mem_of_mem_splitOn part newline), not_mem_of_mem_splitOn part⟩

theorem wireToSourceUrls_join (kept : ∀ source ∈ sources, Kept source)
    (unbroken : ∀ source ∈ sources, '\n' ∉ source ∧ '|' ∉ source) :
    wireToSourceUrls (['|'].intercalate sources) = ['\n'].intercalate sources := by
  have same : ∀ source ∈ sources, (source.map fun c => if c = '|' then '\n' else c) = source := by
    intro source there
    have other : ∀ c ∈ source, (if c = '|' then '\n' else c) = c := fun c inside =>
      if_neg fun bar : c = '|' => (unbroken source there).2 (bar ▸ inside)
    rw [List.map_congr_left other, List.map_id']
  have marks : (['|'].intercalate sources).map (fun c => if c = '|' then '\n' else c) = ['\n'].intercalate sources := by
    rw [map_join, List.map_congr_left same, List.map_id', if_pos rfl]
  rw [wireToSourceUrls, marks, splitSourceUrls_join kept fun source there => (unbroken source there).1]

theorem sources_again (kept : ∀ source ∈ sourcesOf text, Kept source) :
    joinSourceUrlsForWire (wireToSourceUrls (joinSourceUrlsForWire text)) = joinSourceUrlsForWire text := by
  rw [joinSourceUrlsForWire_eq text, wireToSourceUrls_join kept fun source => unbroken_sourcesOf, joinSourceUrlsForWire,
    splitSourceUrls_join kept fun source there => (unbroken_sourcesOf there).1]

end Sources

section Rulesets

variable {extRaw line : Text} {rows : List Text}

def RowLine (line : Text) : Prop :=
  ∃ group url, line = group ++ ',' :: url ∧ ',' ∉ group ∧ Kept group ∧ Kept url ∧ ';' ∉ line ∧ '\r' ∉ line

theorem RowLine.trim_eq (row : RowLine line) : trim line = line := by
  obtain ⟨group, url, rfl, -, ⟨named, group⟩, ⟨located, url⟩, -⟩ := row
  exact strip_joined group url located named

theorem rulesetLines_stand (there : line ∈ rulesetLines extRaw) : Stands line ∧ '\n' ∉ line := by
  have kept := List.mem_filter.mp there
  obtain ⟨part, inside, rfl⟩ := List.mem_map.mp kept.1
  exact ⟨by simpa [Stands] using kept.2, not_mem_trim (not_mem_of_mem_splitOn inside)⟩

theorem readRow_line (row : RowLine line) (stands : Stands line) : ∃ read, readRow line = some read ∧ read.line = line := by
  have whole := row.trim_eq
  obtain ⟨group, url, rfl, comma, ⟨named, group⟩, ⟨located, url⟩, -⟩ := row
  refine ⟨⟨_, _⟩, ?_, rfl⟩
  rw [readRow, whole, if_neg (stands_iff.mp stands), cutAt_mark_iff.mpr ⟨rfl, comma⟩]
  simp only [group, url, named, located, or_self, if_false]

theorem splitEntries_join (present : rows ≠ []) (separate : ∀ row ∈ rows, ';' ∉ row ∧ '\r' ∉ row ∧ '\n' ∉ row) :
    splitEntries ([';'].intercalate rows) = rows := by
  have same : ∀ row ∈ rows, (row.map fun c => if c = '\r' ∨ c = '\n' then ';' else c) = row := by
    intro row there
    have other : ∀ c ∈ row, (if c = '\r' ∨ c = '\n' then ';' else c) = c := by
      intro c inside
      refine if_neg ?_
      rintro (rfl | rfl)
      · exact (separate row there).2.1 inside
      · exact (separate row there).2.2 inside
    rw [List.map_congr_left other, List.map_id']
  rw [splitEntries, map_join, List.map_congr_left same, List.map_id', if_neg (by decide)]
  exact List.splitOn_intercalate _ (fun row there => (separate row there).1) present

theorem rulesetLines_join (present : rows ≠ []) (rowLines : ∀ row ∈ rows, RowLine row) (stand : ∀ row ∈ rows, Stands row ∧ '\n' ∉ row) :
    rulesetLines (['\n'].intercalate rows) = rows := by
  rw [rulesetLines, List.splitOn_intercalate _ (fun row there => (stand row there).2) present,
    List.map_congr_left fun row there => (rowLines row there).trim_eq, List.map_id', List.filter_eq_self]
  exact fun row there => by simpa [Stands] using (stand row there).1

theorem rows_again (rowLines : ∀ line ∈ rulesetLines extRaw, RowLine line) (present : rulesetLines extRaw ≠ []) :
    rulesetLines (ruleFamilyValue .extRuleset ([';'].intercalate (rulesetLines extRaw))) = rulesetLines extRaw := by
  have separate : ∀ line ∈ rulesetLines extRaw, ';' ∉ line ∧ '\r' ∉ line ∧ '\n' ∉ line := by
    intro line there
    obtain ⟨-, -, -, -, -, -, semicolon, ret⟩ := rowLines line there
    exact ⟨semicolon, ret, (rulesetLines_stand there).2⟩
  have lines : (parseExtRulesetRows ([';'].intercalate (rulesetLines extRaw))).map ExtRulesetRow.line = rulesetLines extRaw := by
    rw [parseExtRulesetRows, splitEntries_join present separate, List.map_filterMap]
    have every : ∀ line ∈ rulesetLines extRaw, (readRow line).map ExtRulesetRow.line = some line := by
      intro line there
      obtain ⟨read, found, same⟩ := readRow_line (rowLines line there) (rulesetLines_stand there).1
      rw [found, Option.map_some, same]
    rw [List.filterMap_congr every, List.filterMap_some]
  rw [ruleFamilyValue, if_neg (by simp), lines]
  exact rulesetLines_join present rowLines fun line => rulesetLines_stand

end Rulesets

end SubConverter.Web
