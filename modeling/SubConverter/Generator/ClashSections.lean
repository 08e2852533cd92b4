import SubConverter.Lib.Insertion
import SubConverter.Handler.Addresses

set_option autoImplicit false

namespace SubConverter.Generator.ClashSections

open Handler (split startsWith)
open Insertion

section Assembly

def withoutMark (content : Text) : Text :=
  if startsWith content (chars "---") then
    match cutAt ['\n'] content with
    | some (_, rest) => rest
    | none => content
  else content

def indented (content : Text) : Text :=
  (split content '\n').flatMap fun line => if line ≠ [] then chars "  " ++ line ++ ['\n'] else ['\n']

def closed (text : Text) : Text := if text ≠ [] ∧ text.getLast? ≠ some '\n' then text ++ ['\n'] else text

def groupsKey (newFieldName : Bool) : Text := if newFieldName then chars "proxy-groups:" else chars "Proxy Group:"

def proxiesHeader (newFieldName : Bool) : Text := if newFieldName then chars "proxies:\n" else chars "Proxy:\n"

def sectionText (header content : Text) : Text := closed (header ++ indented (withoutMark content))

def providersText (providersYaml : Text) : Text := sectionText (chars "proxy-providers:\n") providersYaml

def proxiesText (proxiesYaml : Text) (newFieldName : Bool) : Text := sectionText (proxiesHeader newFieldName) proxiesYaml

def insertProxyProvidersBeforeGroups (yamlStr providersYaml : Text) (newFieldName : Bool) : Text :=
  insertBefore (groupsKey newFieldName) (providersText providersYaml) yamlStr

def insertProxiesBeforeTarget (yamlStr proxiesYaml : Text) (newFieldName : Bool) : Text :=
  insertBefore (groupsKey newFieldName) (proxiesText proxiesYaml newFieldName) yamlStr

-- The text before the tags of quoted strings are resolved.
def dumpWithExtractedFields (dumped providersYaml proxiesYaml : Text) (newFieldName : Bool) : Text :=
  let result := if providersYaml ≠ [] then insertProxyProvidersBeforeGroups dumped providersYaml newFieldName else dumped
  if proxiesYaml ≠ [] then insertProxiesBeforeTarget result proxiesYaml newFieldName else result

def proxyProvidersStr (providersYaml : Text) : Text :=
  if providersYaml ≠ [] ∧ withoutMark providersYaml ≠ [] then providersText providersYaml else []

def yamlnodeStr (dumped providersYaml proxiesYaml : Text) (newFieldName : Bool) : Text :=
  let providers := proxyProvidersStr providersYaml
  let result :=
    if providers ≠ [] then
      match cutAt (groupsKey newFieldName) dumped with
      | some (front, back) => front ++ providers ++ groupsKey newFieldName ++ back
      | none => dumped ++ providers
    else dumped
  if proxiesYaml ≠ [] then insertProxiesBeforeTarget result proxiesYaml newFieldName else result

structure Grouped where
  before : Text
  rest : Text
  lines : Ended '\n' before
  keyEnds : ∀ c ∈ rest.head?, c = '\n' ∨ c = ' '

def Grouped.text (document : Grouped) (newFieldName : Bool) : Text := document.before ++ groupsKey newFieldName ++ document.rest

def extracted (providersYaml proxiesYaml : Text) (newFieldName : Bool) : List Text :=
  (if providersYaml ≠ [] then [providersText providersYaml] else []) ++
    if proxiesYaml ≠ [] then [proxiesText proxiesYaml newFieldName] else []

def Grouped.placed (document : Grouped) (providersYaml proxiesYaml : Text) (newFieldName : Bool) : Text :=
  document.before ++ (extracted providersYaml proxiesYaml newFieldName).flatten ++ groupsKey newFieldName ++ document.rest

def Grouped.Clear (document : Grouped) (providersYaml proxiesYaml : Text) (newFieldName : Bool) : Prop :=
  (providersYaml ≠ [] ∨ proxiesYaml ≠ [] → ¬ groupsKey newFieldName <:+: document.before) ∧
    (providersYaml ≠ [] → proxiesYaml ≠ [] → ¬ groupsKey newFieldName <:+: providersText providersYaml)

end Assembly

section Headers

variable {newFieldName : Bool} {providersYaml proxiesYaml : Text}

theorem groupsKey_ne_nil : groupsKey newFieldName ≠ [] := by cases newFieldName <;> decide

theorem newline_not_mem_groupsKey : '\n' ∉ groupsKey newFieldName := by
  cases newFieldName <;> simp [groupsKey, chars]

theorem header_providers : Header '\n' (groupsKey newFieldName) (chars "proxy-providers:\n") := by
  cases newFieldName with
  | false => exact ⟨.inr ⟨chars "proxy-providers:", by decide⟩, by decide, by decide, by decide⟩
  | true => exact ⟨.inr ⟨chars "proxy-providers:", by decide⟩, by decide, by decide, by decide⟩

theorem header_proxies : Header '\n' (groupsKey newFieldName) (proxiesHeader newFieldName) := by
  cases newFieldName with
  | false => exact ⟨.inr ⟨chars "Proxy:", by decide⟩, by decide, by decide, by decide⟩
  | true => exact ⟨.inr ⟨chars "proxies:", by decide⟩, by decide, by decide, by decide⟩

theorem headed_sectionText {key header : Text} (safe : Header '\n' key header) (content : Text) :
    Headed '\n' key (sectionText header content) := by
  constructor
  · rw [sectionText, closed]
    split
    · exact ⟨header, _, by rw [List.append_assoc], safe⟩
    · exact ⟨header, _, rfl, safe⟩
  · rw [sectionText, closed]
    split
    · exact .inr ⟨_, rfl⟩
    next whole =>
      rw [not_and_or, not_not, not_not] at whole
      exact whole.imp_right fun last => List.getLast?_eq_some_iff.mp last

theorem headed_extracted : ∀ part ∈ extracted providersYaml proxiesYaml newFieldName, Headed '\n' (groupsKey newFieldName) part := by
  intro part there
  rcases List.mem_append.mp there with there | there
  · rw [List.mem_ite_nil_right, List.mem_singleton] at there
    exact there.2 ▸ headed_sectionText header_providers providersYaml
  · rw [List.mem_ite_nil_right, List.mem_singleton] at there
    exact there.2 ▸ headed_sectionText header_proxies proxiesYaml

end Headers

section Placement

variable {newFieldName : Bool} {providersYaml proxiesYaml : Text}

theorem dumpWithExtractedFields_eq (dumped : Text) : dumpWithExtractedFields dumped providersYaml proxiesYaml newFieldName =
    insertAll (groupsKey newFieldName) (extracted providersYaml proxiesYaml newFieldName) dumped := by
  unfold dumpWithExtractedFields extracted
  by_cases providers : providersYaml = [] <;> by_cases proxies : proxiesYaml = [] <;>
    simp [providers, proxies, insertAll, insertProxyProvidersBeforeGroups, insertProxiesBeforeTarget]

theorem clear_iff (document : Grouped) : document.Clear providersYaml proxiesYaml newFieldName ↔
    extracted providersYaml proxiesYaml newFieldName = [] ∨
      ¬ groupsKey newFieldName <:+: document.before ++ (extracted providersYaml proxiesYaml newFieldName).dropLast.flatten := by
  have apart (back : Text) : groupsKey newFieldName <:+: document.before ++ back ↔
      groupsKey newFieldName <:+: document.before ∨ groupsKey newFieldName <:+: back :=
    infix_append_ended newline_not_mem_groupsKey document.lines
  unfold Grouped.Clear extracted
  by_cases providers : providersYaml = [] <;> by_cases proxies : proxiesYaml = []
  · simp [providers, proxies]
  · simp [providers, proxies]
  · simp [providers, proxies]
  · simp [providers, proxies, apart]

theorem dumpWithExtractedFields_iff (document : Grouped) :
    dumpWithExtractedFields (document.text newFieldName) providersYaml proxiesYaml newFieldName =
        document.placed providersYaml proxiesYaml newFieldName ↔
      document.Clear providersYaml proxiesYaml newFieldName := by
  rw [dumpWithExtractedFields_eq, clear_iff]
  exact insertAll_eq_iff groupsKey_ne_nil newline_not_mem_groupsKey headed_extracted document.lines

theorem length_insertBefore_le (key part text : Text) : (insertBefore key part text).length ≤ text.length + part.length := by
  unfold insertBefore
  cases cut : cutAt key text with
  | none => simp
  | some parts =>
    rw [eq_of_cutAt cut]
    simp only [List.length_append]
    omega

theorem providersText_ne_nil : providersText providersYaml ≠ [] := by
  intro none
  have present := (headed_sectionText (@header_providers true) providersYaml).header
  obtain ⟨header, body, shape, safe⟩ := present
  rw [providersText] at none
  rw [none] at shape
  exact safe.longer ((List.append_eq_nil_iff.mp shape.symm).1 ▸ List.nil_prefix)

theorem yamlnodeStr_eq (document : Grouped) (something : providersYaml ≠ [] → withoutMark providersYaml ≠ []) :
    yamlnodeStr (document.text newFieldName) providersYaml proxiesYaml newFieldName =
      dumpWithExtractedFields (document.text newFieldName) providersYaml proxiesYaml newFieldName := by
  unfold yamlnodeStr dumpWithExtractedFields proxyProvidersStr
  by_cases providers : providersYaml = []
  · simp [providers]
  · have kept : providersYaml ≠ [] ∧ withoutMark providersYaml ≠ [] := ⟨providers, something providers⟩
    have found : ∃ parts, cutAt (groupsKey newFieldName) (document.text newFieldName) = some parts := by
      cases cut : cutAt (groupsKey newFieldName) (document.text newFieldName) with
      | none =>
        refine absurd ?_ ((cutAt_eq_none_iff groupsKey_ne_nil).mp cut)
        exact ⟨document.before, document.rest, rfl⟩
      | some parts => exact ⟨parts, rfl⟩
    obtain ⟨parts, cut⟩ := found
    simp only [kept, ne_eq, not_false_eq_true, and_self, if_true, providersText_ne_nil, cut,
      insertProxyProvidersBeforeGroups, insertBefore]

theorem sections_placed_iff (document : Grouped) (providersYaml proxiesYaml : Text) (newFieldName : Bool) :
    (dumpWithExtractedFields (document.text newFieldName) providersYaml proxiesYaml newFieldName =
        document.placed providersYaml proxiesYaml newFieldName ↔
      document.Clear providersYaml proxiesYaml newFieldName) ∧
    (yamlnodeStr (document.text newFieldName) providersYaml proxiesYaml newFieldName =
        document.placed providersYaml proxiesYaml newFieldName ↔
      document.Clear providersYaml proxiesYaml newFieldName ∧ (providersYaml ≠ [] → withoutMark providersYaml ≠ [])) := by
  refine ⟨dumpWithExtractedFields_iff document, ?_⟩
  by_cases something : providersYaml ≠ [] → withoutMark providersYaml ≠ []
  · rw [yamlnodeStr_eq document something, dumpWithExtractedFields_iff document]
    exact (and_iff_left something).symm
  · refine ⟨fun same => ?_, fun both => absurd both.2 something⟩
    -- The providers are dropped, so the text is too short.
    obtain ⟨given, nothing⟩ := Classical.not_imp.mp something
    have lengths := congrArg List.length same
    have long := List.length_pos_iff.mpr (@providersText_ne_nil providersYaml)
    have dropped : proxyProvidersStr providersYaml = [] := if_neg fun both => nothing both.2
    have whole : (document.placed providersYaml proxiesYaml newFieldName).length =
        (document.text newFieldName).length + (providersText providersYaml).length +
          (if proxiesYaml ≠ [] then proxiesText proxiesYaml newFieldName else []).length := by
      rw [Grouped.placed, Grouped.text, extracted, if_pos given]
      by_cases proxies : proxiesYaml = []
      · simp [proxies]
        omega
      · simp [proxies]
        omega
    have short : (yamlnodeStr (document.text newFieldName) providersYaml proxiesYaml newFieldName).length ≤
        (document.text newFieldName).length + (if proxiesYaml ≠ [] then proxiesText proxiesYaml newFieldName else []).length := by
      by_cases proxies : proxiesYaml = []
      · simp [yamlnodeStr, dropped, proxies]
      · simpa [yamlnodeStr, dropped, proxies, insertProxiesBeforeTarget] using length_insertBefore_le _ _ _
    omega

theorem section_in_value :
    ¬ dumpWithExtractedFields (chars "secret: \"proxy-groups:\"\nproxy-groups:\n  - name: A\n") [] (chars "- name: HK\n") true =
      chars "secret: \"proxy-groups:\"\nproxies:\n  - name: HK\nproxy-groups:\n  - name: A\n" := by
  decide

end Placement

end SubConverter.Generator.ClashSections
