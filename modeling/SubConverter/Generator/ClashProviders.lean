import SubConverter.Generator.ProviderPlan

set_option autoImplicit false

namespace SubConverter.Generator.ClashScript

open Handler (split toLower trim toLower_decimal)

section Paths

def pathKeyChar (c : Char) : Char := (if c = '\\' then '/' else c).toLower

def numberText (index : Nat) : Text := if 1 < index then '-' :: decimal index else []

theorem map_pathKeyChar_numberText (index : Nat) : (numberText index).map pathKeyChar = numberText index := by
  have digits : (decimal index).map pathKeyChar = decimal index := by
    have lower := toLower_decimal index
    rw [toLower] at lower
    calc (decimal index).map pathKeyChar
        = (decimal index).map Char.toLower := List.map_congr_left fun c there => by
          have other : c ≠ '\\' := fun same => not_mem_decimal (by decide) (same ▸ there)
          rw [pathKeyChar, if_neg other]
      _ = decimal index := lower
  rw [numberText]
  split
  · rw [List.map_cons, digits]
    rfl
  · rfl

theorem numberText_injOn : Set.InjOn numberText (Set.Ici 1) := by
  intro m least n least' same
  rw [Set.mem_Ici] at least least'
  simp only [numberText] at same
  split at same <;> split at same
  · exact decimal_injective (List.cons.inj same).2
  · cases same
  · cases same
  · omega

theorem normalize_pathCandidate (providerName behavior sourceUrl extension : Text) :
    ∃ front behind, ∀ index, normalizeRuleProviderPathKey (pathCandidate providerName behavior sourceUrl extension index) =
      front ++ (numberText index ++ behind) := by
  refine ⟨chars "providers/" ++ (sanitizeRuleProviderFileName providerName).map pathKeyChar,
    ('-' :: (behavior ++ '-' :: (ruleProviderUrlFingerprint sourceUrl ++ '.' :: extension))).map pathKeyChar, fun index => ?_⟩
  have whole : pathCandidate providerName behavior sourceUrl extension index = '.' :: '/' :: (chars "providers/" ++
      (sanitizeRuleProviderFileName providerName ++ (numberText index ++
        '-' :: (behavior ++ '-' :: (ruleProviderUrlFingerprint sourceUrl ++ '.' :: extension))))) := by
    have mark : chars "./providers/" = '.' :: '/' :: chars "providers/" := by decide
    simp [pathCandidate, numberText, mark]
  have opened (rest : Text) : dropHere (('.' :: '/' :: (chars "providers/" ++ rest)).map fun c => if c = '\\' then '/' else c) =
      (chars "providers/" ++ rest).map fun c => if c = '\\' then '/' else c := by
    simp [chars, dropHere]
  have spelled (text : Text) : toLower (text.map fun c => if c = '\\' then '/' else c) = text.map pathKeyChar := List.map_map
  have kept : (chars "providers/").map pathKeyChar = chars "providers/" := by decide
  rw [normalizeRuleProviderPathKey, whole, opened, spelled, List.map_append, kept, List.map_append, List.map_append,
    map_pathKeyChar_numberText, List.append_assoc]

theorem pathCandidate_injOn (providerName behavior sourceUrl extension : Text) :
    Set.InjOn (fun index => normalizeRuleProviderPathKey (pathCandidate providerName behavior sourceUrl extension index)) (Set.Ici 1) := by
  obtain ⟨front, behind, spelled⟩ := normalize_pathCandidate providerName behavior sourceUrl extension
  intro m least n least' same
  simp only [spelled, List.append_cancel_left_eq, List.append_cancel_right_eq] at same
  exact numberText_injOn least least' same

theorem reserveRuleProviderPath_first (providerName behavior sourceUrl extension : Text) (usedPaths : List Text) :
    ∃ index, 1 ≤ index ∧
      reserveRuleProviderPath providerName behavior sourceUrl extension usedPaths =
        pathCandidate providerName behavior sourceUrl extension index ∧
      normalizeRuleProviderPathKey (pathCandidate providerName behavior sourceUrl extension index) ∉ usedPaths ∧
      ∀ earlier, 1 ≤ earlier → earlier < index →
        normalizeRuleProviderPathKey (pathCandidate providerName behavior sourceUrl extension earlier) ∈ usedPaths := by
  obtain ⟨index, same, least, -, taken, -⟩ := @firstFree_spec Text Text _ normalizeRuleProviderPathKey usedPaths
    (pathCandidate providerName behavior sourceUrl extension) usedPaths.length 1
  refine ⟨index, least, same, fun inside => ?_, taken⟩
  rw [← same] at inside
  exact key_freshName_not_mem_of_injOn (pathCandidate_injOn providerName behavior sourceUrl extension) inside

theorem reserveRuleProviderPath_free (providerName behavior sourceUrl extension : Text) (usedPaths : List Text) :
    normalizeRuleProviderPathKey (reserveRuleProviderPath providerName behavior sourceUrl extension usedPaths) ∉ usedPaths := by
  obtain ⟨index, -, same, free, -⟩ := reserveRuleProviderPath_first providerName behavior sourceUrl extension usedPaths
  rwa [same]

end Paths

section Documents

def providerAt (root : Entries) (key : Text) : Option Entries :=
  match definedField root (chars "rule-providers") with
  | some (.map providers) =>
    match definedField providers key with
    | some (.map fields) => some fields
    | _ => none
  | _ => none

def fieldText (fields : Entries) (name : Text) : Option Text := (definedField fields name).bind YamlNode.text?

variable {env : ScriptEnv} {s : ScriptState} {root root' : Entries} {used used' : List Text} {write : ProviderWrite} {writes : List ProviderWrite}

theorem providerAt_eq {providers fields : Entries} {key : Text} (here : definedField root (chars "rule-providers") = some (.map providers))
    (there : definedField providers key = some (.map fields)) : providerAt root key = some fields := by
  simp only [providerAt, here, there]

theorem providerAt_eq_some {fields : Entries} {key : Text} (found : providerAt root key = some fields) :
    ∃ providers, definedField root (chars "rule-providers") = some (.map providers) ∧ definedField providers key = some (.map fields) := by
  rw [providerAt] at found
  split at found
  · rename_i providers here
    split at found
    · rename_i there
      cases found
      exact ⟨providers, here, there⟩
    · cases found
  · cases found

theorem emitProvider_spec (done : emitProvider env s (root, used) write = some (root', used')) :
    used' = normalizeRuleProviderPathKey (writePath s write used) :: used ∧
      (∃ provider, providerAt root' write.key = some (providerFields env s write (writePath s write used) provider)) ∧
      ∀ key fields, key ≠ write.key → providerAt root key = some fields → providerAt root' key = some fields := by
  obtain ⟨providers, here, done⟩ := Option.bind_eq_some_iff.mp done
  obtain ⟨provider, -, done⟩ := Option.bind_eq_some_iff.mp done
  obtain ⟨rfl, rfl⟩ := Prod.mk.inj (Option.some_inj.mp done)
  refine ⟨rfl, ⟨provider, providerAt_eq (definedField_setField _ _ _) (definedField_setField _ _ _)⟩, fun key fields different found => ?_⟩
  obtain ⟨entries, stored, there⟩ := providerAt_eq_some found
  simp only [stored, asEntries, Option.some.injEq] at here
  subst here
  exact providerAt_eq (definedField_setField _ _ _) (by rw [definedField_setField_ne different, there])

theorem fieldText_providerFields (write : ProviderWrite) (path : Text) (provider : Entries) :
    fieldText (providerFields env s write path provider) (chars "behavior") = some write.behavior ∧
      fieldText (providerFields env s write path provider) (chars "url") = some (providerUrl env s write) ∧
      fieldText (providerFields env s write path provider) (chars "path") = some path := by
  have interval (name : Text) (other : name ≠ chars "interval") (value : YamlNode) (p : Prop) [Decidable p] (fields : Entries) :
      definedField (if p then setField (chars "interval") value fields else fields) name = definedField fields name := by
    split
    · exact definedField_setField_ne other _ _
    · rfl
  have format (name : Text) (other : name ≠ chars "format") (value : YamlNode) (p : Prop) [Decidable p] (fields : Entries) :
      definedField (if p then setField (chars "format") value fields else fields) name = definedField fields name := by
    split
    · exact definedField_setField_ne other _ _
    · rfl
  simp only [fieldText, providerFields]
  refine ⟨?_, ?_, ?_⟩
  · rw [interval _ (by decide), format _ (by decide), definedField_setField_ne (by decide), definedField_setField_ne (by decide),
      definedField_setField]
    rfl
  · rw [interval _ (by decide), format _ (by decide), definedField_setField_ne (by decide), definedField_setField]
    rfl
  · rw [interval _ (by decide), format _ (by decide), definedField_setField]
    rfl

theorem foldlM_emitProvider (done : writes.foldlM (emitProvider env s) (root, used) = some (root', used'))
    (apart : (writes.map ProviderWrite.key).Nodup) :
    ∃ paths : List Text, (paths.map normalizeRuleProviderPathKey).Nodup ∧ (∀ path ∈ paths, normalizeRuleProviderPathKey path ∉ used) ∧
      List.Forall₂ (fun write path => ∃ provider, providerAt root' write.key = some (providerFields env s write path provider)) writes paths ∧
      ∀ key ∉ writes.map ProviderWrite.key, ∀ fields, providerAt root key = some fields → providerAt root' key = some fields := by
  induction writes generalizing root used with
  | nil =>
    cases done
    exact ⟨[], List.nodup_nil, by simp, .nil, fun _ _ _ found => found⟩
  | cons write writes ih =>
    rw [List.foldlM_cons] at done
    obtain ⟨⟨middle, taken⟩, first, done⟩ := Option.bind_eq_some_iff.mp done
    obtain ⟨rfl, ⟨provider, written⟩, kept⟩ := emitProvider_spec first
    rw [List.map_cons, List.nodup_cons] at apart
    obtain ⟨paths, distinct, free, provided, frame⟩ := ih done apart.2
    refine ⟨writePath s write used :: paths, ?_, ?_, .cons ⟨provider, frame _ apart.1 _ written⟩ provided, ?_⟩
    · rw [List.map_cons, List.nodup_cons]
      refine ⟨fun again => ?_, distinct⟩
      obtain ⟨path, there, same⟩ := List.mem_map.mp again
      exact free path there (same ▸ List.mem_cons_self)
    · rw [List.forall_mem_cons]
      exact ⟨reserveRuleProviderPath_free _ _ _ _ _, fun path there inside => free path there (List.mem_cons_of_mem _ inside)⟩
    · intro key outside fields found
      rw [List.map_cons, List.mem_cons, not_or] at outside
      exact frame key outside.2 fields (kept key fields outside.1 found)

end Documents

section Keys

variable {env : ScriptEnv} {content : RulesetSource} {part other : ProviderPart}

theorem contentParts_cases (env : ScriptEnv) (content : RulesetSource) :
    (∃ part, contentParts env content = [part] ∧ part.suffix = []) ∨
      (contentParts env content).Nodup ∧ ∀ part ∈ contentParts env content, part = domainPart ∨ part = ipcidrPart := by
  simp only [contentParts]
  split
  · exact .inl ⟨_, rfl, by cases content.ruleType <;> rfl⟩
  split
  · exact .inl ⟨_, rfl, rfl⟩
  · generalize hasLine isDomainLine (contentLines env content) = domain
    generalize hasLine isIpcidrLine (contentLines env content) = ipcidr
    cases domain <;> cases ipcidr
    · exact .inl ⟨_, rfl, rfl⟩
    all_goals exact .inr ⟨by decide, by simp [readParts]⟩

theorem suffix_ne_nil_iff (there : part ∈ contentParts env content) : part.suffix ≠ [] ↔ part = domainPart ∨ part = ipcidrPart := by
  rcases contentParts_cases env content with ⟨single, parts, bare⟩ | ⟨-, ends⟩
  · rw [parts] at there
    obtain rfl := List.mem_singleton.mp there
    refine ⟨fun none => absurd bare none, ?_⟩
    rintro (rfl | rfl) <;> cases bare
  · refine ⟨fun _ => ends part there, ?_⟩
    rintro (rfl | rfl) <;> decide

theorem part_of_suffix (there : part ∈ contentParts env content) (also : other ∈ contentParts env content)
    (same : part.suffix = other.suffix) : part = other := by
  rcases contentParts_cases env content with ⟨single, parts, -⟩ | ⟨-, ends⟩
  · rw [parts, List.mem_singleton] at there also
    exact there.trans also.symm
  · rcases ends part there with rfl | rfl <;> rcases ends other also with rfl | rfl
    · rfl
    · exact absurd same (by decide)
    · exact absurd same (by decide)
    · rfl

theorem suffixes_apart (first second : Text) : first ++ domainPart.suffix ≠ second ++ ipcidrPart.suffix := by
  intro same
  have mirrored := congrArg List.reverse same
  simp [domainPart, ipcidrPart, chars] at mirrored

theorem readKey_apart (key : Text) : ',' ∉ readKey key := by
  intro there
  have inside : ',' ∈ key.takeWhile (· ≠ ',') := by
    rw [readKey, trim, Handler.trimOf] at there
    split at there
    · exact there
    · obtain ⟨front, back, whole, -, -⟩ := strip_spec (· = ' ') (key.takeWhile (· ≠ ','))
      rw [whole]
      exact List.mem_append_left _ (List.mem_append_right _ there)
  simpa using List.all_eq_true.mp List.all_takeWhile _ inside

theorem readKey_of_ends {key : Text} (apart : ',' ∉ key) (first : key.head? ≠ some ' ') (last : key.getLast? ≠ some ' ') :
    readKey key = key := by
  have whole : key.takeWhile (· ≠ ',') = key := by
    rw [List.takeWhile_eq_self_iff]
    intro c there
    have other : c ≠ ',' := fun same => apart (same ▸ there)
    simpa using other
  rw [readKey, whole, trim, Handler.trimOf]
  split
  · rfl
  · refine strip_eq_self (fun c there => ?_) fun c there => ?_
    · exact decide_eq_false fun blank => first (blank ▸ there)
    · exact decide_eq_false fun blank => last (blank ▸ there)

theorem head_readKey {key : Text} {c : Char} (kept : c ∈ readKey key) (solid : c ≠ ' ') : (readKey key).head? ≠ some ' ' := by
  rw [readKey, trim, Handler.trimOf] at kept ⊢
  split at kept
  · rename_i blank
    have same := List.all_eq_true.mp blank c kept
    exact absurd (by simpa using same) solid
  · rename_i mixed
    rw [if_neg mixed]
    intro first
    have other := (strip_ends (· = ' ') (key.takeWhile (· ≠ ','))).1 ' ' first
    simp at other

theorem readKey_own {name : Text} (there : part ∈ contentParts env content) (also : other ∈ contentParts env content)
    (read : readKey (name ++ part.suffix) = name ++ other.suffix) : readKey (name ++ part.suffix) = name ++ part.suffix := by
  rcases contentParts_cases env content with ⟨single, parts, -⟩ | ⟨-, ends⟩
  · rw [parts, List.mem_singleton] at there also
    rw [there, also] at read
    rw [there, read]
  have bracket (part : ProviderPart) (known : part = domainPart ∨ part = ipcidrPart) :
      ',' ∉ part.suffix ∧ part.suffix.head? = some ' ' ∧ part.suffix.getLast? = some ')' := by
    rcases known with rfl | rfl <;> decide
  obtain ⟨plain, -, closed⟩ := bracket part (ends part there)
  obtain ⟨-, blank, closed'⟩ := bracket other (ends other also)
  have clean : ',' ∉ name := fun inside => readKey_apart (name ++ part.suffix) (by rw [read]; exact List.mem_append_left _ inside)
  have solid : (name ++ other.suffix).head? ≠ some ' ' := by
    have mark : ')' ∈ readKey (name ++ part.suffix) := by
      rw [read]
      exact List.mem_append_right _ (List.mem_of_mem_getLast? closed')
    exact read ▸ head_readKey mark (by decide)
  refine readKey_of_ends (by simp [clean, plain]) ?_ (by simp [closed])
  cases name with
  | nil => exact absurd blank solid
  | cons c rest => exact solid

end Keys

section Match

def contentUrl (env : ScriptEnv) (content : RulesetSource) (part : ProviderPart) : Text :=
  if isClashType content.ruleType then content.rulePath else servedUrl env.remotePathPrefix part.conversionType content.rulePathTyped

def pathKeyAt (root : Entries) (key : Text) : Option Text :=
  ((providerAt root key).bind fun fields => fieldText fields (chars "path")).map normalizeRuleProviderPathKey

def Provides (env : ScriptEnv) (root : Entries) (content : RulesetSource) (part : ProviderPart) (key : Text) : Prop :=
  ∃ fields, providerAt root key = some fields ∧ fieldText fields (chars "behavior") = some part.behavior ∧
    fieldText fields (chars "url") = some (contentUrl env content part)

structure ProvidersMatch (env : ScriptEnv) (baseRule : Entries) (contents : List RulesetSource) (s : ScriptState) (root : Entries) : Prop where
  keys : (s.writes.map ProviderWrite.key).Nodup
  rules : definedField root (chars "rules") = some (textSequence s.rules)
  references : ∀ before content after s₁ s₂ added rule key, contents = before ++ content :: after →
    readContents env baseRule before = some s₁ → contentStep env s₁ content = some s₂ → s₂.rules = s₁.rules ++ added →
      rule ∈ added → namedRuleSet rule = some key →
        key ∈ s.writes.map ProviderWrite.key ∧
          (content.rulePath ≠ [] → ∃ part ∈ contentParts env content, writeOf s₂.ruleName part ∈ s.writes ∧
            key = s₂.ruleName ++ part.suffix ∧ Provides env root content part key)
  paths : (s.writes.map fun write => pathKeyAt root write.key).Nodup
  free : ∀ write ∈ s.writes, ∃ path, pathKeyAt root write.key = some path ∧ path ∉ collectRuleProviderPaths baseRule
  search : ∀ providerName behavior sourceUrl extension usedPaths, ∃ index, 1 ≤ index ∧
    reserveRuleProviderPath providerName behavior sourceUrl extension usedPaths =
      pathCandidate providerName behavior sourceUrl extension index ∧
    normalizeRuleProviderPathKey (pathCandidate providerName behavior sourceUrl extension index) ∉ usedPaths ∧
    ∀ earlier, 1 ≤ earlier → earlier < index →
      normalizeRuleProviderPathKey (pathCandidate providerName behavior sourceUrl extension earlier) ∈ usedPaths

structure KeysApart (env : ScriptEnv) (contents : List RulesetSource) : Prop where
  apart : ∀ first ∈ plan env contents, ∀ second ∈ plan env contents,
    ∀ plain ∈ contentParts env first.2, ∀ part ∈ contentParts env second.2, plain.suffix = [] → part.suffix ≠ [] →
      first.1 ≠ second.1 ++ part.suffix
  readable : ∀ entry ∈ plan env contents, ∀ part ∈ contentParts env entry.2, readKey (entry.1 ++ part.suffix) = entry.1 ++ part.suffix
  inline : ∀ content ∈ contents, content.rulePath = [] → ∀ key, namedRuleSet (inlineRule content) = some key →
    key ∈ (plannedWrites env contents).map ProviderWrite.key
  unmarked : ∀ entry ∈ plan env contents, isClashType entry.2.ruleType = false → entry.2.rulePathTyped.head? = some '*' →
    ∀ part ∈ contentParts env entry.2, entry.2.rulePathTyped.tail = servedUrl env.remotePathPrefix part.conversionType entry.2.rulePathTyped

variable {env : ScriptEnv} {baseRule root : Entries} {contents : List RulesetSource} {s : ScriptState} {content : RulesetSource}
  {part : ProviderPart} {entry : Text × RulesetSource}

theorem mem_plannedWrites {write : ProviderWrite} : write ∈ plannedWrites env contents ↔
    ∃ entry ∈ plan env contents, ∃ part ∈ contentParts env entry.2, writeOf entry.1 part = write := by
  simp only [plannedWrites, List.mem_flatMap, List.mem_map]

theorem nodup_plannedKeys (apart : KeysApart env contents) : ((plannedWrites env contents).map ProviderWrite.key).Nodup := by
  rw [plannedWrites, List.map_flatMap, List.nodup_flatMap]
  constructor
  · intro entry there
    rw [List.map_map]
    rcases contentParts_cases env entry.2 with ⟨single, parts, -⟩ | ⟨nodup, -⟩
    · rw [parts]
      exact List.nodup_singleton _
    · exact List.Nodup.map_on (fun first here second also same => part_of_suffix here also (List.append_cancel_left same)) nodup
  · have names : (plan env contents).Pairwise fun first second => first.1 ≠ second.1 := List.pairwise_map.mp (plan_names_nodup env contents)
    refine names.imp_of_mem fun {first second} here also different key inside inside' => ?_
    simp only [List.map_map, List.mem_map, Function.comp_apply, writeOf] at inside inside'
    obtain ⟨part, partHere, rfl⟩ := inside
    obtain ⟨other, otherHere, same⟩ := inside'
    by_cases bare : part.suffix = [] <;> by_cases bare' : other.suffix = []
    · rw [bare, bare', List.append_nil, List.append_nil] at same
      exact different same.symm
    · rw [bare, List.append_nil] at same
      exact apart.apart first here second also part partHere other otherHere bare bare' same.symm
    · rw [bare', List.append_nil] at same
      exact apart.apart second also first here other otherHere part partHere bare' bare same
    · rcases (suffix_ne_nil_iff partHere).mp bare with rfl | rfl <;> rcases (suffix_ne_nil_iff otherHere).mp bare' with rfl | rfl
      · exact different (List.append_cancel_right same).symm
      · exact suffixes_apart _ _ same.symm
      · exact suffixes_apart _ _ same
      · exact different (List.append_cancel_right same).symm

structure Emitted (env : ScriptEnv) (baseRule : Entries) (s : ScriptState) (root : Entries) (paths : List Text) : Prop where
  rules : definedField root (chars "rules") = some (textSequence s.rules)
  nodup : (paths.map normalizeRuleProviderPathKey).Nodup
  free : ∀ path ∈ paths, normalizeRuleProviderPathKey path ∉ collectRuleProviderPaths baseRule
  provided : List.Forall₂ (fun write path => ∃ provider, providerAt root write.key = some (providerFields env s write path provider))
    s.writes paths

theorem providerAt_setRules (root : Entries) (value : YamlNode) (key : Text) :
    providerAt (setField (chars "rules") value root) key = providerAt root key := by
  rw [providerAt, definedField_setField_ne (by decide), ← providerAt]

theorem emitted_of_render (off : env.script = false) (read : readContents env baseRule contents = some s)
    (done : renderClashScript env baseRule contents = some root) (apart : (s.writes.map ProviderWrite.key).Nodup) :
    ∃ paths, Emitted env baseRule s root paths := by
  obtain ⟨last, behind, done⟩ := Option.bind_eq_some_iff.mp done
  obtain rfl : s = last := Option.some_inj.mp (read.symm.trans behind)
  obtain ⟨⟨middle, used⟩, emitted, done⟩ := Option.bind_eq_some_iff.mp done
  rw [emitProviders, Option.ite_none_right_eq_some] at emitted
  simp only [off, Bool.false_eq_true, if_false] at done
  obtain ⟨paths, nodup, free, provided, -⟩ := foldlM_emitProvider emitted.2 apart
  cases done
  refine ⟨paths, definedField_setField _ _ _, nodup, free, provided.imp fun write path there => ?_⟩
  rwa [providerAt_setRules]

theorem Emitted.fields {paths : List Text} (emitted : Emitted env baseRule s root paths) {write : ProviderWrite} (there : write ∈ s.writes) :
    ∃ fields path, providerAt root write.key = some fields ∧ path ∈ paths ∧ fieldText fields (chars "behavior") = some write.behavior ∧
      fieldText fields (chars "url") = some (providerUrl env s write) ∧ fieldText fields (chars "path") = some path := by
  obtain ⟨path, inside, provider, found⟩ : ∃ path ∈ paths, ∃ provider,
      providerAt root write.key = some (providerFields env s write path provider) := by
    have provided := emitted.provided
    clear emitted
    generalize s.writes = writes at there provided
    induction provided with
    | nil => cases there
    | @cons first path _ paths here _ ih =>
      rcases List.mem_cons.mp there with rfl | later
      · exact ⟨path, List.mem_cons_self, here⟩
      · obtain ⟨other, inside, found⟩ := ih later
        exact ⟨other, List.mem_cons_of_mem _ inside, found⟩
  obtain ⟨behavior, url, stored⟩ := @fieldText_providerFields env s write path provider
  exact ⟨_, path, found, inside, behavior, url, stored⟩

theorem Emitted.pathKeys {paths : List Text} (emitted : Emitted env baseRule s root paths) :
    (s.writes.map fun write => pathKeyAt root write.key) = (paths.map normalizeRuleProviderPathKey).map some := by
  have provided := emitted.provided
  clear emitted
  generalize s.writes = writes at provided ⊢
  induction provided with
  | nil => rfl
  | @cons write path _ _ here _ ih =>
    obtain ⟨provider, found⟩ := here
    rw [List.map_cons, ih, pathKeyAt, found, Option.bind_some, (fieldText_providerFields write path provider).2.2]
    rfl

theorem providerUrl_writeOf (follows : Follows env contents s) (there : entry ∈ plan env contents) (part : ProviderPart) :
    providerUrl env s (writeOf entry.1 part) = contentUrl env entry.2 part ↔
      (isClashType entry.2.ruleType = false → entry.2.rulePathTyped.head? = some '*' →
        entry.2.rulePathTyped.tail = servedUrl env.remotePathPrefix part.conversionType entry.2.rulePathTyped) := by
  have url : s.urls (writeOf entry.1 part).group = storedUrl entry.2 := follows.urls entry there
  simp only [providerUrl, url, storedUrl, contentUrl]
  cases isClashType entry.2.ruleType
  · by_cases marked : entry.2.rulePathTyped.head? = some '*'
    · simp [marked]
    · simp [marked, writeOf]
  · simp

theorem match_of_keysApart (off : env.script = false) (serves : env.remotePathPrefix ≠ [])
    (read : readContents env baseRule contents = some s) (done : renderClashScript env baseRule contents = some root)
    (apart : KeysApart env contents) : ProvidersMatch env baseRule contents s root := by
  have follows := readContents_follows off serves read
  have planned := follows.planned
  have keys : (s.writes.map ProviderWrite.key).Nodup := planned ▸ nodup_plannedKeys apart
  obtain ⟨paths, emitted⟩ := emitted_of_render off read done keys
  refine ⟨keys, emitted.rules, ?_, ?_, ?_, reserveRuleProviderPath_first⟩
  · intro before content after s₁ s₂ added rule key whole behind stepped rules among named
    have earlier := readContents_follows off serves behind
    obtain ⟨-, own, step⟩ := contentStep_follows off serves earlier stepped
    obtain rfl : added = own := List.append_cancel_left (rules.symm.trans step.rules)
    by_cases path : content.rulePath = []
    · rw [step.inline path, List.mem_singleton] at among
      have inside := apart.inline content (by simp [whole]) path key (among ▸ named)
      exact ⟨planned ▸ inside, fun made => absurd path made⟩
    · obtain ⟨plain, refs, rfl, unnamed, refers⟩ := step.made path
      rcases List.mem_append.mp among with left | right
      · rw [unnamed rule left] at named
        cases named
      obtain ⟨part, inside, refer⟩ := refers.each rule right
      by_cases gets : hasProvider env content = true
      · rw [if_pos gets] at inside
        have there : (s₂.ruleName, content) ∈ plan env contents := by
          have entry := @mem_plan_of_step env before content gets after
          rwa [← earlier.groups, ← step.named gets, ← whole] at entry
        have readable := apart.readable _ there part inside
        rw [namedRuleSet_of_refers refer, readable, Option.some_inj] at named
        have written : writeOf s₂.ruleName part ∈ s.writes := planned ▸ mem_plannedWrites.mpr ⟨_, there, part, inside, rfl⟩
        obtain ⟨fields, path', found, -, behavior, url, -⟩ := emitted.fields written
        rw [(providerUrl_writeOf follows there part).mpr fun served marked => apart.unmarked _ there served marked part inside] at url
        exact ⟨named ▸ List.mem_map_of_mem written, fun _ => ⟨part, inside, written, named.symm, fields, named ▸ found, behavior, url⟩⟩
      · rw [if_neg gets] at inside
        cases inside
  · rw [emitted.pathKeys]
    exact emitted.nodup.map (Option.some_injective _)
  · intro write there
    obtain ⟨fields, path, found, inside, -, -, stored⟩ := emitted.fields there
    exact ⟨_, by rw [pathKeyAt, found, Option.bind_some, stored]; rfl, emitted.free path inside⟩

theorem rule_of_planned (off : env.script = false) (serves : env.remotePathPrefix ≠ []) (read : readContents env baseRule contents = some s)
    (there : entry ∈ plan env contents) (inside : part ∈ contentParts env entry.2) :
    ∃ before after s₁ s₂ added rule, contents = before ++ entry.2 :: after ∧ readContents env baseRule before = some s₁ ∧
      contentStep env s₁ entry.2 = some s₂ ∧ s₂.rules = s₁.rules ++ added ∧ rule ∈ added ∧ s₂.ruleName = entry.1 ∧
        entry.2.rulePath ≠ [] ∧ namedRuleSet rule = some (readKey (entry.1 ++ part.suffix)) := by
  obtain ⟨before, after, rfl, gets, named⟩ := step_of_mem_plan there
  obtain ⟨s₁, s₂, behind, stepped⟩ := readContents_split read
  have earlier := readContents_follows off serves behind
  obtain ⟨-, added, step⟩ := contentStep_follows off serves earlier stepped
  have path : entry.2.rulePath ≠ [] := by
    intro inline
    simp [hasProvider, inline] at gets
  have ruleName : s₂.ruleName = entry.1 := by rw [step.named gets, earlier.groups, named]
  obtain ⟨plain, refs, rfl, -, refers⟩ := step.made path
  rw [if_pos gets] at refers
  obtain ⟨rule, among, refer⟩ := refers.all part inside
  exact ⟨before, after, s₁, s₂, plain ++ refs, rule, rfl, behind, stepped, step.rules, List.mem_append_right _ among, ruleName, path,
    ruleName ▸ namedRuleSet_of_refers refer⟩

theorem keysApart_of_match (off : env.script = false) (serves : env.remotePathPrefix ≠ [])
    (read : readContents env baseRule contents = some s) (done : renderClashScript env baseRule contents = some root)
    (same : ProvidersMatch env baseRule contents s root) : KeysApart env contents := by
  have follows := readContents_follows off serves read
  have planned := follows.planned
  obtain ⟨paths, emitted⟩ := emitted_of_render off read done same.keys
  have readable : ∀ entry ∈ plan env contents, ∀ part ∈ contentParts env entry.2,
      readKey (entry.1 ++ part.suffix) = entry.1 ++ part.suffix := by
    intro entry there part inside
    obtain ⟨before, after, s₁, s₂, added, rule, whole, behind, stepped, rules, among, ruleName, path, named⟩ :=
      rule_of_planned off serves read there inside
    obtain ⟨-, made⟩ := same.references before entry.2 after s₁ s₂ added rule _ whole behind stepped rules among named
    obtain ⟨other, also, -, key, -⟩ := made path
    exact readKey_own inside also (ruleName ▸ key)
  refine ⟨?_, readable, ?_, ?_⟩
  · intro first here second also plain plainHere part partHere bare ended equal
    have one : writeOf first.1 plain ∈ s.writes := planned ▸ mem_plannedWrites.mpr ⟨first, here, plain, plainHere, rfl⟩
    have two : writeOf second.1 part ∈ s.writes := planned ▸ mem_plannedWrites.mpr ⟨second, also, part, partHere, rfl⟩
    have key : (writeOf first.1 plain).key = (writeOf second.1 part).key := by
      simp only [writeOf, bare, List.append_nil]
      exact equal
    have group := congrArg ProviderWrite.group (List.inj_on_of_nodup_map same.keys one two key)
    simp only [writeOf] at group
    rw [group] at equal
    exact ended (List.append_right_eq_self.mp equal.symm)
  · intro content among inline key named
    obtain ⟨before, after, rfl⟩ := List.append_of_mem among
    obtain ⟨s₁, s₂, behind, stepped⟩ := readContents_split read
    obtain ⟨-, added, step⟩ := contentStep_follows off serves (readContents_follows off serves behind) stepped
    have inside := (same.references before content after s₁ s₂ added _ key rfl behind stepped step.rules
      (by rw [step.inline inline]; exact List.mem_singleton_self _) named).1
    rwa [planned] at inside
  · intro entry there served marked part inside
    obtain ⟨before, after, s₁, s₂, added, rule, whole, behind, stepped, rules, among, ruleName, path, named⟩ :=
      rule_of_planned off serves read there inside
    rw [readable entry there part inside] at named
    obtain ⟨-, made⟩ := same.references before entry.2 after s₁ s₂ added rule _ whole behind stepped rules among named
    obtain ⟨other, also, -, key, fields, found, -, url⟩ := made path
    obtain rfl : part = other := part_of_suffix inside also (List.append_cancel_left (key.trans (ruleName ▸ rfl)))
    have written : writeOf entry.1 part ∈ s.writes := planned ▸ mem_plannedWrites.mpr ⟨entry, there, part, inside, rfl⟩
    obtain ⟨fields', path', found', -, -, url', -⟩ := emitted.fields written
    obtain rfl : fields = fields' := Option.some_inj.mp (found.symm.trans found')
    exact (providerUrl_writeOf follows there part).mp (Option.some_inj.mp (url'.symm.trans url)) served marked

theorem providers_match_iff (off : env.script = false) (serves : env.remotePathPrefix ≠ [])
    (read : readContents env baseRule contents = some s) (done : renderClashScript env baseRule contents = some root) :
    ProvidersMatch env baseRule contents s root ↔ KeysApart env contents :=
  ⟨keysApart_of_match off serves read done, match_of_keysApart off serves read done⟩

end Match

section Collision

def servingEnv : ScriptEnv where
  regexes := ⟨fun _ _ => false, fun text _ _ => text⟩
  fileExist := fun _ => false
  remotePathPrefix := chars "https://converter.test"
  script := false

def listedDomains : RulesetSource where
  ruleGroup := chars "Proxy"
  ruleContent := chars "DOMAIN,a.test\nDOMAIN-KEYWORD,b"
  rulePath := chars "https://lists.test/a.list"
  rulePathTyped := chars "https://lists.test/a.list"

def namedDomains : RulesetSource where
  ruleGroup := chars "Direct"
  ruleType := .clashDomain
  ruleContent := []
  rulePath := chars "https://other.test/a%20(Domain).yaml"

def otherDomains : RulesetSource := { namedDomains with rulePath := chars "https://other.test/b.yaml" }

theorem providers_match_apart : ∃ s root, readContents servingEnv [] [listedDomains, otherDomains] = some s ∧
    renderClashScript servingEnv [] [listedDomains, otherDomains] = some root ∧
    ProvidersMatch servingEnv [] [listedDomains, otherDomains] s root := by
  have run : (readContents servingEnv [] [listedDomains, otherDomains]).isSome = true := by decide
  have rendered : (renderClashScript servingEnv [] [listedDomains, otherDomains]).isSome = true := by decide
  obtain ⟨s, read⟩ := Option.isSome_iff_exists.mp run
  obtain ⟨root, done⟩ := Option.isSome_iff_exists.mp rendered
  refine ⟨s, root, read, done, (providers_match_iff rfl (by decide) read done).mpr ⟨by decide, by decide, ?_, by decide⟩⟩
  intro content among inline
  have paths : ∀ content ∈ [listedDomains, otherDomains], content.rulePath ≠ [] := by decide
  exact absurd inline (paths content among)

theorem providers_collide : ∃ s root, readContents servingEnv [] [listedDomains, namedDomains] = some s ∧
    renderClashScript servingEnv [] [listedDomains, namedDomains] = some root ∧
    ¬ProvidersMatch servingEnv [] [listedDomains, namedDomains] s root ∧
    s.rules = [chars "DOMAIN-KEYWORD,b,Proxy", chars "RULE-SET,a (Domain),Proxy", chars "RULE-SET,a (Domain),Direct"] ∧
    (providerAt root (chars "a (Domain)")).bind (fun fields => fieldText fields (chars "url")) = some namedDomains.rulePath := by
  have run : (readContents servingEnv [] [listedDomains, namedDomains]).map (fun s => (s.writes.map ProviderWrite.key, s.rules)) =
      some ([chars "a (Domain)", chars "a (Domain)"],
        [chars "DOMAIN-KEYWORD,b,Proxy", chars "RULE-SET,a (Domain),Proxy", chars "RULE-SET,a (Domain),Direct"]) := by decide
  have rendered : (renderClashScript servingEnv [] [listedDomains, namedDomains]).map
      (fun root => (providerAt root (chars "a (Domain)")).bind fun fields => fieldText fields (chars "url")) =
      some (some namedDomains.rulePath) := by decide
  obtain ⟨s, read, seen⟩ := Option.map_eq_some_iff.mp run
  obtain ⟨root, done, url⟩ := Option.map_eq_some_iff.mp rendered
  obtain ⟨keys, rules⟩ := Prod.mk.inj seen
  refine ⟨s, root, read, done, fun same => ?_, rules, url⟩
  have nodup := same.keys
  rw [keys] at nodup
  exact absurd nodup (by decide)

end Collision

end SubConverter.Generator.ClashScript
