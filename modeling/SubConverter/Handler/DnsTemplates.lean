import Mathlib.Data.Char
import Mathlib.Data.List.Lex
import Mathlib.Data.Prod.Lex
import SubConverter.Handler.CacheStorage
import SubConverter.Handler.ProxyIdentity
import SubConverter.Lib.Retention
import SubConverter.Lib.Stripped

set_option autoImplicit false

namespace SubConverter.Handler.DnsTemplates

open Retention

section Files

/-- What `is_regular_file` finds; where it finds nothing, as behind a link without a target, it leaves an error. -/
inductive FileStatus where
  | regular
  | other
  | unreadable
deriving DecidableEq, Repr

structure Entry where
  name : Text
  status : FileStatus := .regular
  content : Text := []
  lastWriteTime : Option Int := none
deriving DecidableEq, Repr

structure Directory where
  entries : List Entry
  distinct : (entries.map Entry.name).Nodup

def Directory.put (dir : Directory) (entry : Entry) : Directory where
  entries := entry :: dir.entries.filter fun other => other.name ≠ entry.name
  distinct := by
    rw [List.map_cons, List.nodup_cons]
    refine ⟨fun there => ?_, dir.distinct.sublist (List.filter_sublist.map _)⟩
    obtain ⟨other, kept, same⟩ := List.mem_map.mp there
    simpa [same] using (List.mem_filter.mp kept).2

def Directory.without (dir : Directory) (names : List Text) : Directory where
  entries := dir.entries.filter fun entry => entry.name ∉ names
  distinct := dir.distinct.sublist (List.filter_sublist.map _)

-- `fileGet` gives nothing where there is no file to read.
def Directory.fileGet (dir : Directory) (name : Text) : Text :=
  match dir.entries.find? fun entry => entry.name = name with
  | some entry => if entry.status = .regular then entry.content else []
  | none => []

end Files

section Names

def kDefaultMaxDnsTemplateEntries : Nat := 500

-- The number that the variable holds, where `strtoul` reads all of it.
def configuredMaxEntries : Option Nat → Nat
  | none => kDefaultMaxDnsTemplateEntries
  | some 0 => kDefaultMaxDnsTemplateEntries
  | some (parsed + 1) => parsed + 1

def validDnsTemplateId (id : Text) : Bool := id.length = 16 && id.all isHex

def dnsTemplatePath (id : Text) : Text := id ++ chars ".yml"

def stemAndExtension (name : Text) : Text × Text :=
  match cutAtLast '.' name with
  | none | some ([], _) => (name, [])
  | some (c :: stem, extension) => (c :: stem, '.' :: extension)

def isTemplate (entry : Entry) : Bool :=
  entry.status = .regular && (stemAndExtension entry.name).2 = chars ".yml" && validDnsTemplateId (stemAndExtension entry.name).1

end Names

section Pruning

-- `file_time_type::min()`
def fileTimeMin : Int := -2 ^ 63

def Entry.time (entry : Entry) : Int := entry.lastWriteTime.getD fileTimeMin

def older (left right : Entry) : Bool := if left.time ≠ right.time then left.time < right.time else left.name < right.name

def Directory.templates (dir : Directory) : List Entry := dir.entries.filter isTemplate

/-- The loop over the directory. It returns at once where the entry before has left an error. -/
def collectTemplates (error : Bool) : List Entry → Option (List Entry)
  | [] => some []
  | entry :: rest =>
    if error then none
    else if entry.status = .unreadable then collectTemplates true rest
    else if isTemplate entry then (collectTemplates (entry.lastWriteTime = none) rest).map (entry :: ·)
    else collectTemplates false rest

/-- What the file system answers to a save, and the time that it gives to the written file. A directory is listed in
any order, unless it cannot be opened; a file that is not removed stays. -/
structure Storage where
  directoryReady : Bool := true
  commit : FileCommitResult := .durable
  time : Option Int := none
  listing : (entries : List Entry) → Option { listed : List Entry // listed.Perm entries } := fun entries => some ⟨entries, .rfl⟩
  removes : Text → Bool := fun _ => true

def pruneDnsTemplates (maxEntries : Nat) (storage : Storage) (dir : Directory) : Directory :=
  match (storage.listing dir.entries).bind fun listed => collectTemplates false listed.1 with
  | none => dir
  | some templates =>
    if templates.length ≤ maxEntries then dir
    else dir.without (((oldest older (templates.length - maxEntries) templates).map Entry.name).filter storage.removes)

end Pruning

section Saving

def kMaxDnsTemplateBytes : Nat := 64 * 1024

def normalizeContent (content : Text) : Text :=
  let content := trimWhitespace content
  if content ≠ [] ∧ content.getLast? ≠ some '\n' then content ++ ['\n'] else content

def hasControlCharacters (content : Text) : Bool := content.any fun ch => ch.toNat < 0x20 && ch ≠ '\n' && ch ≠ '\r' && ch ≠ '\t'

inductive Document where
  | unreadable
  | other
  | dnsMap
deriving DecidableEq, Repr

structure DnsTemplateSaveResult where
  ok : Bool := false
  id : Text := []
  content : Text := []
  error : Text := []
deriving DecidableEq, Repr

variable (md5 : Text → Fin 16 → UInt8) (load : Text → Document)

def sigToString (signature : Fin 16 → UInt8) : Text :=
  (List.ofFn signature).flatMap fun byte => [hexDigits.getD (byte.toNat / 16) '0', hexDigits.getD (byte.toNat % 16) '0']

def getMD5 (data : Text) : Text := sigToString (md5 data)

def validateDnsTemplateContent (content : Text) : Option Text :=
  if content = [] then some (chars "empty-content")
  else if kMaxDnsTemplateBytes < content.length then some (chars "content-too-large")
  else if hasControlCharacters content then some (chars "invalid-character")
  else
    match load content with
    | .unreadable => some (chars "invalid-yaml")
    | .other => some (chars "invalid-dns-yaml")
    | .dnsMap => none

def loadDnsTemplate (dir : Directory) (id : Text) : Text :=
  if !validDnsTemplateId id then [] else dir.fileGet (dnsTemplatePath id)

def templateId (content : Text) : Text := (getMD5 md5 content).take 16

def savedEntry (storage : Storage) (content : Text) : Entry :=
  { name := dnsTemplatePath (templateId md5 (normalizeContent content)), content := normalizeContent content,
    lastWriteTime := storage.time }

def saveDnsTemplate (maxEntries : Nat) (storage : Storage) (dir : Directory) (content : Text) : DnsTemplateSaveResult × Directory :=
  let result : DnsTemplateSaveResult := { content := normalizeContent content }
  match validateDnsTemplateContent load result.content with
  | some error => ({ result with error := error }, dir)
  | none =>
    let result := { result with id := templateId md5 result.content }
    if !storage.directoryReady ∨ fileCommitFailed storage.commit then ({ result with error := chars "storage-unavailable" }, dir)
    else ({ result with ok := true }, pruneDnsTemplates maxEntries storage (dir.put (savedEntry md5 storage content)))

end Saving

section Directories

variable {dir : Directory} {entry other : Entry} {names : List Text} {name : Text}

theorem Directory.same (first : entry ∈ dir.entries) (second : other ∈ dir.entries) (names : entry.name = other.name) : entry = other :=
  List.inj_on_of_nodup_map dir.distinct first second names

theorem Directory.fileGet_of_mem (there : entry ∈ dir.entries) (regular : entry.status = .regular) :
    dir.fileGet entry.name = entry.content := by
  rw [fileGet]
  cases found : dir.entries.find? fun other => other.name = entry.name with
  | none => exact absurd (decide_eq_true rfl) (List.find?_eq_none.mp found entry there)
  | some other =>
    have same : other.name = entry.name := by simpa using List.find?_some found
    obtain rfl := dir.same (List.mem_of_find?_eq_some found) there same
    exact if_pos regular

theorem Directory.fileGet_of_not_mem (absent : ∀ entry ∈ dir.entries, entry.name ≠ name) : dir.fileGet name = [] := by
  rw [fileGet, List.find?_eq_none.mpr fun entry there => by simpa using absent entry there]

theorem Directory.templates_put (dir : Directory) (known : isTemplate entry = true) :
    (dir.put entry).templates = entry :: dir.templates.filter fun other => other.name ≠ entry.name := by
  rw [templates, put, List.filter_cons_of_pos known, templates, List.filter_filter, List.filter_filter]
  simp only [Bool.and_comm]

theorem mem_templates : entry ∈ dir.templates ↔ entry ∈ dir.entries ∧ isTemplate entry = true := List.mem_filter

end Directories

section Listing

/-- What the entry leaves in the error code that the next turn of the loop looks at. -/
def Entry.leavesError (entry : Entry) : Bool := entry.status = .unreadable || isTemplate entry && entry.lastWriteTime.isNone

variable {entry : Entry} {rest : List Entry}

theorem readable_of_isTemplate (template : isTemplate entry = true) : entry.status ≠ .unreadable := by
  intro unreadable
  simp [isTemplate, unreadable] at template

-- By induction on the listing: an error is left by the first entry, or further behind.
theorem collectTemplates_eq (listed : List Entry) :
    collectTemplates false listed = if listed.dropLast.any Entry.leavesError then none else some (listed.filter isTemplate) := by
  induction listed with
  | nil => rfl
  | cons entry rest ih =>
    cases rest with
    | nil =>
      cases template : isTemplate entry with
      | false => simp [collectTemplates, template]
      | true => simp [collectTemplates, template, readable_of_isTemplate template]
    | cons next more =>
      rw [collectTemplates, List.dropLast_cons_cons, List.any_cons, Entry.leavesError]
      by_cases unreadable : entry.status = .unreadable
      · simp [unreadable, collectTemplates]
      · by_cases template : isTemplate entry = true
        · by_cases timeless : entry.lastWriteTime = none
          · simp [unreadable, template, timeless, collectTemplates]
          · simp only [unreadable, template, timeless, if_true, if_false, decide_false, Bool.false_eq_true, ih, Bool.false_or,
              Bool.true_and, Option.isNone_eq_false_iff.mpr (Option.isSome_iff_ne_none.mpr timeless), List.filter_cons_of_pos]
            split <;> rfl
        · simp only [unreadable, template, if_false, decide_false, Bool.false_eq_true, ih, Bool.false_or, Bool.false_and,
            not_false_eq_true, List.filter_cons_of_neg]

/-- The directory is opened, and no entry but the last one that is listed leaves an error. -/
def Storage.readsAll (storage : Storage) (dir : Directory) : Bool :=
  (storage.listing dir.entries).any fun listed => !listed.1.dropLast.any Entry.leavesError

end Listing

section Order

variable {dir : Directory} {first second : Entry} {maxEntries : Nat} {storage : Storage}

def age (entry : Entry) : Int ×ₗ Text := toLex (entry.time, entry.name)

theorem older_iff (first second : Entry) : older first second = true ↔ age first < age second := by
  rw [age, age, Prod.Lex.toLex_lt_toLex, older]
  by_cases same : first.time = second.time
  · simp [same]
  · simp [same]

theorem distinct_ages (dir : Directory) : (dir.templates.map age).Nodup := by
  have names : (dir.templates.map Entry.name).Nodup := dir.distinct.sublist (List.filter_sublist.map _)
  refine List.Nodup.of_map (fun key : Int ×ₗ Text => (ofLex key).2) ?_
  rwa [List.map_map]

/-- The oldest templates over the limit. -/
def victims (maxEntries : Nat) (dir : Directory) : List Entry := oldest older (dir.templates.length - maxEntries) dir.templates

def pruned (maxEntries : Nat) (storage : Storage) (dir : Directory) : List Entry :=
  if storage.readsAll dir then (victims maxEntries dir).filter fun entry => storage.removes entry.name else []

theorem victims_of_le (few : dir.templates.length ≤ maxEntries) : victims maxEntries dir = [] := by
  rw [victims, Nat.sub_eq_zero_of_le few, oldest, List.take_zero]

theorem mem_victims (there : first ∈ victims maxEntries dir) : first ∈ dir.templates := mem_of_oldest there

theorem mem_pruned : first ∈ pruned maxEntries storage dir ↔
    storage.readsAll dir = true ∧ first ∈ victims maxEntries dir ∧ storage.removes first.name = true := by
  rw [pruned]
  split
  next reads => simp [reads]
  next stops => simp [stops]

/-- Pruning takes out the victims that can be removed, or nothing. -/
theorem entries_prune (maxEntries : Nat) (storage : Storage) (dir : Directory) :
    (pruneDnsTemplates maxEntries storage dir).entries =
      dir.entries.filter fun entry => entry.name ∉ (pruned maxEntries storage dir).map Entry.name := by
  have nothing : dir.entries = dir.entries.filter fun entry => entry.name ∉ ([] : List Entry).map Entry.name := by simp
  rw [pruneDnsTemplates, pruned, Storage.readsAll]
  cases opened : storage.listing dir.entries with
  | none => exact nothing
  | some listed =>
    simp only [Option.bind_some, Option.any_some, collectTemplates_eq]
    by_cases stops : listed.1.dropLast.any Entry.leavesError = true
    · simp only [stops, if_true, Bool.not_true, Bool.false_eq_true, if_false]
      exact nothing
    · have same : (listed.1.filter isTemplate).Perm dir.templates := listed.2.filter _
      simp only [stops, Bool.false_eq_true, if_false, Bool.not_false, if_true, same.length_eq,
        oldest_perm older_iff (distinct_ages dir) same]
      split
      next few =>
        rw [victims_of_le few]
        exact nothing
      next => rw [Directory.without, List.filter_map]; rfl

theorem mem_prune : first ∈ (pruneDnsTemplates maxEntries storage dir).entries ↔
    first ∈ dir.entries ∧ first ∉ pruned maxEntries storage dir := by
  rw [entries_prune, List.mem_filter, decide_eq_true_eq]
  refine and_congr_right fun there => not_congr ⟨fun named => ?_, List.mem_map_of_mem⟩
  obtain ⟨other, out, same⟩ := List.mem_map.mp named
  rwa [← dir.same (mem_templates.mp (mem_victims (mem_pruned.mp out).2.1)).1 there same]

theorem mem_templates_prune : first ∈ (pruneDnsTemplates maxEntries storage dir).templates ↔
    first ∈ dir.templates ∧ first ∉ pruned maxEntries storage dir := by
  rw [mem_templates, mem_prune, mem_templates]
  tauto

theorem nodup_templates (dir : Directory) : dir.templates.Nodup := (distinct_ages dir).of_map

theorem nodup_victims (maxEntries : Nat) (dir : Directory) : (victims maxEntries dir).Nodup :=
  ((perm_sorted older dir.templates).nodup_iff.mpr (nodup_templates dir)).sublist (List.take_sublist _ _)

theorem nodup_pruned (maxEntries : Nat) (storage : Storage) (dir : Directory) : (pruned maxEntries storage dir).Nodup := by
  rw [pruned]
  split
  · exact (nodup_victims maxEntries dir).filter _
  · exact List.nodup_nil

theorem length_templates_prune (maxEntries : Nat) (storage : Storage) (dir : Directory) :
    (pruneDnsTemplates maxEntries storage dir).templates.length + (pruned maxEntries storage dir).length = dir.templates.length := by
  have apart : (pruneDnsTemplates maxEntries storage dir).templates.Disjoint (pruned maxEntries storage dir) :=
    fun entry kept out => (mem_templates_prune.mp kept).2 out
  have whole : ((pruneDnsTemplates maxEntries storage dir).templates ++ pruned maxEntries storage dir).Perm dir.templates := by
    refine (List.perm_ext_iff_of_nodup ((nodup_templates _).append (nodup_pruned _ _ _) apart) (nodup_templates dir)).mpr fun entry => ?_
    rw [List.mem_append, mem_templates_prune, mem_pruned]
    constructor
    · rintro (kept | out)
      · exact kept.1
      · exact mem_victims out.2.1
    · intro there
      by_cases out : storage.readsAll dir = true ∧ entry ∈ victims maxEntries dir ∧ storage.removes entry.name = true
      · exact .inr out
      · exact .inl ⟨there, out⟩
  rw [← List.length_append, whole.length_eq]

/-- Whether pruning can do what it has to. -/
def Storage.Clears (storage : Storage) (maxEntries : Nat) (dir : Directory) : Prop :=
  dir.templates.length ≤ maxEntries ∨
    storage.readsAll dir = true ∧ ∀ entry ∈ victims maxEntries dir, storage.removes entry.name = true

theorem length_victims (maxEntries : Nat) (dir : Directory) : (victims maxEntries dir).length = dir.templates.length - maxEntries :=
  length_oldest (Nat.sub_le _ _)

theorem Storage.Clears.pruned_eq (clears : storage.Clears maxEntries dir) : pruned maxEntries storage dir = victims maxEntries dir := by
  rw [pruned]
  rcases clears with few | ⟨reads, removed⟩
  · rw [victims_of_le few]
    split <;> rfl
  · rw [if_pos reads, List.filter_eq_self.mpr removed]

theorem bounded_iff : (pruneDnsTemplates maxEntries storage dir).templates.length ≤ maxEntries ↔ storage.Clears maxEntries dir := by
  have whole := length_templates_prune maxEntries storage dir
  have beyond := length_victims maxEntries dir
  constructor
  · intro bounded
    by_cases few : dir.templates.length ≤ maxEntries
    · exact .inl few
    · have all : (victims maxEntries dir).length ≤ (pruned maxEntries storage dir).length := by omega
      rw [pruned] at all
      split at all
      next reads => exact .inr ⟨reads, List.length_filter_eq_length_iff.mp (Nat.le_antisymm (List.length_filter_le _ _) all)⟩
      next =>
        rw [List.length_nil] at all
        omega
  · intro clears
    rw [clears.pruned_eq] at whole
    omega

end Order

section Ids

variable {id : Text}

theorem length_sigToString (signature : Fin 16 → UInt8) : (sigToString signature).length = 32 := by
  rw [sigToString, List.length_flatMap]
  simp

theorem isHex_hexDigits {d : Nat} (small : d < 16) : isHex (hexDigits.getD d '0') = true := by
  interval_cases d <;> decide

theorem isHex_sigToString (signature : Fin 16 → UInt8) : ∀ c ∈ sigToString signature, isHex c = true := by
  intro c there
  obtain ⟨byte, -, digit⟩ := List.mem_flatMap.mp there
  have small : byte.toNat < 256 := byte.toNat_lt
  simp only [List.mem_cons, List.not_mem_nil, or_false] at digit
  rcases digit with rfl | rfl
  · exact isHex_hexDigits (by omega)
  · exact isHex_hexDigits (by omega)

theorem valid_templateId (md5 : Text → Fin 16 → UInt8) (content : Text) : validDnsTemplateId (templateId md5 content) = true := by
  rw [validDnsTemplateId, Bool.and_eq_true, decide_eq_true_eq, templateId, getMD5, List.length_take, length_sigToString,
    List.all_eq_true]
  exact ⟨rfl, fun c there => isHex_sigToString _ c (List.mem_of_mem_take there)⟩

theorem stemAndExtension_path (valid : validDnsTemplateId id = true) : stemAndExtension (dnsTemplatePath id) = (id, chars ".yml") := by
  rw [validDnsTemplateId, Bool.and_eq_true, decide_eq_true_eq] at valid
  have cut : cutAtLast '.' (dnsTemplatePath id) = some (id, chars "yml") := by
    have parts : cutAt ['.'] (dnsTemplatePath id).reverse = some ((chars "yml").reverse, id.reverse) := by
      refine cutAt_mark_iff.mpr ⟨?_, by decide⟩
      rw [dnsTemplatePath, List.reverse_append]
      rfl
    rw [cutAtLast, parts, Option.map_some, List.reverse_reverse, List.reverse_reverse]
  rw [stemAndExtension, cut]
  cases id with
  | nil => exact absurd valid.1 (by decide)
  | cons c id => rfl

theorem isTemplate_savedEntry (md5 : Text → Fin 16 → UInt8) (storage : Storage) (content : Text) :
    isTemplate (savedEntry md5 storage content) = true := by
  have valid := valid_templateId md5 (normalizeContent content)
  rw [isTemplate, savedEntry, stemAndExtension_path valid, valid, decide_eq_true rfl]
  rfl

theorem normalizeContent_idem (content : Text) : normalizeContent (normalizeContent content) = normalizeContent content := by
  have trimmed : trimWhitespace (trimWhitespace content) = trimWhitespace content := strip_strip isSpace content
  have ended : trimWhitespace (trimWhitespace content ++ ['\n']) = trimWhitespace content :=
    (strip_back (fun c there => by rw [List.mem_singleton.mp there]; rfl) _).trans trimmed
  have inner : trimWhitespace (normalizeContent content) = trimWhitespace content := by
    rw [normalizeContent]
    split
    · exact ended
    · exact trimmed
  rw [normalizeContent, inner]
  rfl

end Ids

section Saves

variable {md5 : Text → Fin 16 → UInt8} {load : Text → Document} {setting : Option Nat} {maxEntries : Nat} {storage : Storage}
  {dir : Directory} {content : Text}

theorem name_savedEntry : (savedEntry md5 storage content).name = dnsTemplatePath (templateId md5 (normalizeContent content)) := by
  rw [savedEntry]

theorem content_savedEntry : (savedEntry md5 storage content).content = normalizeContent content := by rw [savedEntry]

theorem regular_savedEntry : (savedEntry md5 storage content).status = .regular := by rw [savedEntry]

theorem save_ok (ok : (saveDnsTemplate md5 load maxEntries storage dir content).1.ok = true) :
    validateDnsTemplateContent load (normalizeContent content) = none ∧
      (saveDnsTemplate md5 load maxEntries storage dir content).1.id = templateId md5 (normalizeContent content) ∧
      (saveDnsTemplate md5 load maxEntries storage dir content).2 =
        pruneDnsTemplates maxEntries storage (dir.put (savedEntry md5 storage content)) := by
  cases valid : validateDnsTemplateContent load (normalizeContent content) with
  | some error =>
    simp only [saveDnsTemplate, valid] at ok
    cases ok
  | none =>
    simp only [saveDnsTemplate, valid] at ok ⊢
    split at ok
    next => cases ok
    next stored =>
      rw [if_neg stored]
      refine ⟨trivial, ?_, ?_⟩ <;> dsimp only

theorem saved_id (valid : validateDnsTemplateContent load (normalizeContent content) = none) :
    (saveDnsTemplate md5 load maxEntries storage dir content).1.id = templateId md5 (normalizeContent content) := by
  simp only [saveDnsTemplate, valid]
  split <;> rfl

structure Kept (md5 : Text → Fin 16 → UInt8) (load : Text → Document) (maxEntries : Nat) (content : Text) (written : Directory)
    (saved : DnsTemplateSaveResult × Directory) : Prop where
  loaded : loadDnsTemplate saved.2 saved.1.id = normalizeContent content
  bounded : saved.2.templates.length ≤ maxEntries
  oldest : ∀ gone ∈ written.templates, gone ∉ saved.2.templates → gone.name ≠ dnsTemplatePath saved.1.id ∧
    ∀ kept ∈ saved.2.templates, kept.name ≠ dnsTemplatePath saved.1.id → gone.time ≤ kept.time
  again : ∀ storage dir, (saveDnsTemplate md5 load maxEntries storage dir (normalizeContent content)).1.id = saved.1.id

def others (md5 : Text → Fin 16 → UInt8) (dir : Directory) (content : Text) : List Entry :=
  dir.templates.filter fun other => other.name ≠ dnsTemplatePath (templateId md5 (normalizeContent content))

theorem templates_written (md5 : Text → Fin 16 → UInt8) (storage : Storage) (dir : Directory) (content : Text) :
    (dir.put (savedEntry md5 storage content)).templates = savedEntry md5 storage content :: others md5 dir content :=
  dir.templates_put (isTemplate_savedEntry md5 storage content)

theorem mem_written : savedEntry md5 storage content ∈ (dir.put (savedEntry md5 storage content)).templates := by
  rw [templates_written]
  exact .head _

theorem mem_victims_iff : savedEntry md5 storage content ∈ victims maxEntries (dir.put (savedEntry md5 storage content)) ↔
    maxEntries ≤ (others md5 dir content).countP fun other => older (savedEntry md5 storage content) other := by
  rw [victims, mem_oldest_iff older_iff (distinct_ages _) mem_written, templates_written, List.countP_cons_of_neg]
  rw [older_iff]
  exact lt_irrefl _

theorem content_ne_nil (valid : validateDnsTemplateContent load content = none) : content ≠ [] := by
  rintro rfl
  cases valid

theorem save_kept_iff (ok : (saveDnsTemplate md5 load (configuredMaxEntries setting) storage dir content).1.ok = true) :
    Kept md5 load (configuredMaxEntries setting) content (dir.put (savedEntry md5 storage content))
        (saveDnsTemplate md5 load (configuredMaxEntries setting) storage dir content) ↔
      ((others md5 dir content).countP fun other => older (savedEntry md5 storage content) other) < configuredMaxEntries setting ∧
        storage.Clears (configuredMaxEntries setting) (dir.put (savedEntry md5 storage content)) := by
  obtain ⟨valid, id, final⟩ := save_ok ok
  have validId := valid_templateId md5 (normalizeContent content)
  rw [← not_le, ← mem_victims_iff]
  constructor
  · intro kept
    have bounded := kept.bounded
    rw [final] at bounded
    have clears := bounded_iff.mp bounded
    refine ⟨fun out => ?_, clears⟩
    have loaded := kept.loaded
    rw [id, final, loadDnsTemplate, validId, Bool.not_true, if_neg Bool.false_ne_true] at loaded
    refine content_ne_nil valid (loaded.symm.trans (Directory.fileGet_of_not_mem fun entry there same => ?_))
    obtain ⟨before, kept⟩ := mem_prune.mp there
    have written : savedEntry md5 storage content ∈ (dir.put (savedEntry md5 storage content)).entries := (mem_templates.mp mem_written).1
    rw [Directory.same before written same, clears.pruned_eq] at kept
    exact kept out
  · rintro ⟨kept, clears⟩
    have gone_iff := clears.pruned_eq
    refine ⟨?_, ?_, ?_, fun storage dir => ?_⟩
    · have there := mem_prune.mpr ⟨(mem_templates.mp (@mem_written md5 storage dir content)).1, gone_iff ▸ kept⟩
      have stored := Directory.fileGet_of_mem there regular_savedEntry
      rw [name_savedEntry, content_savedEntry] at stored
      rwa [id, final, loadDnsTemplate, validId, Bool.not_true, if_neg Bool.false_ne_true]
    · rw [final]
      exact bounded_iff.mpr clears
    · rw [id, final]
      intro gone before left
      have out : gone ∈ victims (configuredMaxEntries setting) (dir.put (savedEntry md5 storage content)) := by
        by_contra stays
        exact left (mem_templates_prune.mpr ⟨before, gone_iff ▸ stays⟩)
      refine ⟨fun same => ?_, fun other stays _ => ?_⟩
      · rw [Directory.same (mem_templates.mp before).1 (mem_templates.mp mem_written).1 same] at out
        exact kept out
      · obtain ⟨before', stays⟩ := mem_templates_prune.mp stays
        rw [gone_iff] at stays
        have ages := oldest_lt older_iff (distinct_ages _) out before' stays
        rw [age, age, Prod.Lex.toLex_lt_toLex] at ages
        exact ages.elim le_of_lt fun both => both.1.le
    · rw [id, saved_id (by rw [normalizeContent_idem]; exact valid), normalizeContent_idem]

def emptyDigest : Text → Fin 16 → UInt8 :=
  fun _ => ![0x20, 0xe7, 0xc5, 0x57, 0x56, 0x72, 0x9b, 0x15, 0xf9, 0xf7, 0xfd, 0xc2, 0x0a, 0x0f, 0xa6, 0xba]

def storedTemplate (time : Int) : Entry where
  name := chars "0123456789abcdef.yml"
  content := chars "dns: \x7benable: true\x7d\n"
  lastWriteTime := some time

def templatesFrom (time : Int) : Directory where
  entries := [storedTemplate time]
  distinct := List.nodup_singleton _

-- With room for one template, the older one goes.
theorem save_kept_newer : Kept emptyDigest (fun _ => .dnsMap) (configuredMaxEntries (some 1)) (chars "dns: \x7b\x7d")
    ((templatesFrom 50).put (savedEntry emptyDigest { time := some 100 } (chars "dns: \x7b\x7d")))
    (saveDnsTemplate emptyDigest (fun _ => .dnsMap) (configuredMaxEntries (some 1)) { time := some 100 } (templatesFrom 50)
      (chars "dns: \x7b\x7d")) :=
  (save_kept_iff (by decide)).mpr ⟨by decide, .inr (by decide)⟩

theorem save_lost :
    (saveDnsTemplate emptyDigest (fun _ => .dnsMap) (configuredMaxEntries (some 1)) { time := some 100 } (templatesFrom 200)
      (chars "dns: \x7b\x7d")).1.ok = true ∧
    loadDnsTemplate (saveDnsTemplate emptyDigest (fun _ => .dnsMap) (configuredMaxEntries (some 1)) { time := some 100 } (templatesFrom 200)
      (chars "dns: \x7b\x7d")).2 (templateId emptyDigest (normalizeContent (chars "dns: \x7b\x7d"))) ≠ normalizeContent (chars "dns: \x7b\x7d") := by
  decide

end Saves

end SubConverter.Handler.DnsTemplates
