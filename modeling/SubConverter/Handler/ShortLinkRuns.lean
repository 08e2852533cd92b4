import Mathlib
import SubConverter.Handler.ShortLinks

set_option autoImplicit false

namespace SubConverter.Handler.ShortLinks

open Wire (Bytes)
open Bridge (ascii)

section Actions

-- The callers pass the C strings of a request body.
structure CString where
  text : Bytes
  clean : 0 ∉ text

inductive Operation where
  | create (url name : CString) (nowMs : UInt64) (draws : Draws) (configured : Option Nat)
  | update (code : Bytes) (url name : CString) (hasName : Bool) (nowMs : UInt64)
  | delete (code : Bytes)
  | prune (maxEntries : Nat)
  | resolve (code : Bytes) (nowMs : UInt64)

structure Action where
  operation : Operation
  outcome : WriteOutcome

/-- Whether the operation returns an error or `false`, and the store behind it. -/
def perform (s : Store) (action : Action) : Bool × Store :=
  match action.operation with
  | .create url name nowMs draws configured =>
    let (result, s) := createShortLink action.outcome url.text name.text nowMs draws (configuredMaxEntries configured) s
    (!result.ok, s)
  | .update code url name hasName nowMs =>
    let (result, s) := updateShortLink action.outcome code url.text name.text hasName nowMs s
    (!result.ok, s)
  | .delete code =>
    let (deleted, s) := deleteShortLink action.outcome code s
    (!deleted, s)
  | .prune maxEntries => (false, pruneShortLinks action.outcome maxEntries s)
  | .resolve code nowMs =>
    let (result, s) := resolveShortLink action.outcome code nowMs s
    (!result.ok, s)

def step (s : Store) (action : Action) : Option Store := some (perform s action).2

-- The records that the process keeps, once it has read the file.
def Store.contents (s : Store) : Records := s.loadLocked.records

def SameRecords (left right : Records) : Prop := ∀ entry, entry ∈ left ↔ entry ∈ right

def Atomic (s : Store) (action : Action) : Prop :=
  (perform s action).1 = true → SameRecords (perform s action).2.contents s.contents

end Actions

section Loading

@[simp] theorem loadLocked_loaded (s : Store) : s.loadLocked.loaded = true := by
  rw [Store.loadLocked]
  split <;> simp_all

theorem loadLocked_of_loaded {s : Store} (loaded : s.loaded = true) : s.loadLocked = s := if_pos loaded

@[simp] theorem loadLocked_loadLocked (s : Store) : s.loadLocked.loadLocked = s.loadLocked :=
  loadLocked_of_loaded (loadLocked_loaded s)

theorem contents_of_loaded {s : Store} (loaded : s.loaded = true) : s.contents = s.records := by
  rw [Store.contents, loadLocked_of_loaded loaded]

@[simp] theorem saveLocked_records (s : Store) (outcome : WriteOutcome) : (s.saveLocked outcome).2.records = s.records := by
  cases outcome <;> rfl

@[simp] theorem saveLocked_loaded (s : Store) (outcome : WriteOutcome) : (s.saveLocked outcome).2.loaded = s.loaded := by
  cases outcome <;> rfl

def WriteOutcome.ok : WriteOutcome → Bool
  | .committed => true
  | .failed _ => false

@[simp] theorem saveLocked_ok (s : Store) (outcome : WriteOutcome) : (s.saveLocked outcome).1 = outcome.ok := by
  cases outcome <;> rfl

end Loading

section Creating

variable (outcome : WriteOutcome) {url name : Bytes} {nowMs : UInt64} {draws : Draws} {s : Store}

def newRecord (code url name : Bytes) (nowMs : UInt64) : ShortLinkRecord :=
  { code := code, url := url, name := trimName name, createdAt := nowMs, lastAccessAt := 0, updatedAt := nowMs }

-- The records with the new one, pruned to the limit.
def kept (maxEntries : Nat) (record : ShortLinkRecord) (records : Records) : Records :=
  pruneLocked maxEntries (records ++ [(record.code, record)])

theorem makeCode_fresh {records : Records} {code : Bytes} (drawn : makeCodeLocked draws records = some code) :
    code ∉ records.map Prod.fst := by
  simpa using List.find?_some drawn

theorem makeCode_drawn {records : Records} {code : Bytes} (drawn : makeCodeLocked draws records = some code) :
    ∃ attempt, code = drawnCode draws attempt := by
  obtain ⟨attempt, -, same⟩ := List.mem_map.mp (List.mem_of_find?_eq_some drawn)
  exact ⟨attempt, same.symm⟩

inductive NotCreated (url : Bytes) (draws : Draws) (s : Store) : Prop where
  | refused (invalid : extractSubQuery url = none)
  | known {entry : Bytes × ShortLinkRecord} (there : entry ∈ s.contents) (same : entry.2.url = url)
  | exhausted (none : makeCodeLocked draws s.contents = none)

theorem erase_of_not_mem {records : Records} {code : Bytes} (absent : code ∉ records.map Prod.fst) :
    Keyed.erase code records = records := by
  rw [Keyed.erase, List.filter_eq_self]
  intro entry there
  simp only [ne_eq, decide_eq_true_eq]
  exact fun same => absent (same ▸ List.mem_map_of_mem there)

theorem contents_loadLocked (s : Store) : s.loadLocked.contents = s.contents := by
  rw [Store.contents, loadLocked_loadLocked, Store.contents]

theorem storeRecord_spec {record : ShortLinkRecord} (maxEntries : Nat) (loaded : s.loaded = true) (fresh : record.code ∉ s.records.map Prod.fst) :
    let records := kept maxEntries record s.records
    let after := storeRecord outcome record maxEntries s
    after.2.loaded = true ∧ after.2.records = (if after.1.ok then records else Keyed.erase record.code records) ∧
      (after.1.ok ↔ record.code ∈ records.map Prod.fst ∧ outcome.ok) ∧ (after.1.ok → after.1.code = record.code) := by
  rw [storeRecord, Keyed.put_of_not_mem fresh]
  dsimp only
  rw [← kept]
  by_cases absent : record.code ∉ (kept maxEntries record s.records).map Prod.fst
  · rw [if_pos absent]
    exact ⟨loaded, (erase_of_not_mem absent).symm, by simp [refused, absent], by simp [refused]⟩
  · rw [if_neg absent]
    rw [not_not] at absent
    cases outcome with
    | committed => exact ⟨loaded, rfl, by simp [Store.saveLocked, answered, WriteOutcome.ok, absent], fun _ => rfl⟩
    | failed left => exact ⟨loaded, rfl, by simp [Store.saveLocked, refused, WriteOutcome.ok], by simp [Store.saveLocked, refused]⟩

theorem create_cases (url name : Bytes) (nowMs : UInt64) (draws : Draws) (maxEntries : Nat) (s : Store) :
    (NotCreated url draws s ∧ (createShortLink outcome url name nowMs draws maxEntries s).2.contents = s.contents ∧
      ((createShortLink outcome url name nowMs draws maxEntries s).1.ok →
        (createShortLink outcome url name nowMs draws maxEntries s).1.code ∈ s.contents.map Prod.fst)) ∨
    ∃ code, makeCodeLocked draws s.contents = some code ∧ extractSubQuery url ≠ none ∧ (∀ entry ∈ s.contents, entry.2.url ≠ url) ∧
      createShortLink outcome url name nowMs draws maxEntries s =
        storeRecord outcome (newRecord code url name nowMs) maxEntries s.loadLocked := by
  rw [createShortLink]
  by_cases invalid : extractSubQuery url = none
  · rw [if_pos invalid]
    exact .inl ⟨.refused invalid, rfl, nofun⟩
  rw [if_neg invalid]
  dsimp only
  cases same : s.loadLocked.records.find? fun entry => decide (entry.2.url = url) with
  | some entry =>
    have found : entry.2.url = url := by simpa using List.find?_some same
    have there := List.mem_of_find?_eq_some same
    exact .inl ⟨.known there found, contents_loadLocked s, fun _ => List.mem_map_of_mem there⟩
  | none =>
    have unknown : ∀ entry ∈ s.contents, entry.2.url ≠ url := by
      intro entry there
      simpa using List.find?_eq_none.mp same entry there
    cases drawn : makeCodeLocked draws s.loadLocked.records with
    | none => exact .inl ⟨.exhausted drawn, contents_loadLocked s, nofun⟩
    | some code => exact .inr ⟨code, drawn, invalid, unknown, rfl⟩

end Creating

section Changing

variable (outcome : WriteOutcome) (code : Bytes) (s : Store)

def updatedRecord (url name : Bytes) (hasName : Bool) (nowMs : UInt64) (previous : ShortLinkRecord) : ShortLinkRecord :=
  { previous with url := url, name := if hasName then trimName name else previous.name, updatedAt := nowMs }

theorem update_cases (url name : Bytes) (hasName : Bool) (nowMs : UInt64) :
    let after := updateShortLink outcome code url name hasName nowMs s
    after.2.contents = s.contents ∨
    ∃ previous, Keyed.find code s.contents = some previous ∧ validCode code ∧ extractSubQuery url ≠ none ∧ after.1.ok ∧
      after.2.contents = Keyed.put code (updatedRecord url name hasName nowMs previous) s.contents := by
  rw [updateShortLink]
  by_cases valid : validCode code
  case neg =>
    rw [if_pos (by simp [valid])]
    exact .inl rfl
  rw [if_neg (by simp [valid])]
  by_cases bad : extractSubQuery url = none
  · rw [if_pos bad]
    exact .inl rfl
  rw [if_neg bad]
  dsimp only
  cases found : Keyed.find code s.loadLocked.records with
  | none => exact .inl (contents_loadLocked s)
  | some previous =>
    cases outcome with
    | committed =>
      refine .inr ⟨previous, found, valid, bad, rfl, ?_⟩
      dsimp only [Store.saveLocked]
      rw [contents_of_loaded]
      · rfl
      · exact loadLocked_loaded s
    | failed left =>
      refine .inl ?_
      dsimp only [Store.saveLocked]
      rw [Keyed.put_put_find found, contents_of_loaded]
      · rfl
      · exact loadLocked_loaded s

theorem resolve_cases (nowMs : UInt64) :
    let after := resolveShortLink outcome code nowMs s
    (after.2.contents = s.contents ∧ (validCode code = false ∨ code ∉ s.contents.map Prod.fst)) ∨
    ∃ record, Keyed.find code s.contents = some record ∧ validCode code ∧ after.1.ok ∧
      after.1.record = some { record with lastAccessAt := nowMs } ∧
      after.2.contents = Keyed.put code { record with lastAccessAt := nowMs } s.contents := by
  rw [resolveShortLink]
  by_cases valid : validCode code
  case neg =>
    rw [if_pos (by simp [valid])]
    exact .inl ⟨rfl, .inl (by simpa using valid)⟩
  rw [if_neg (by simp [valid])]
  dsimp only
  cases found : Keyed.find code s.loadLocked.records with
  | none => exact .inl ⟨contents_loadLocked s, .inr (Keyed.find_eq_none_iff.mp found)⟩
  | some record =>
    refine .inr ⟨record, found, valid, rfl, rfl, ?_⟩
    dsimp only
    rw [contents_of_loaded (by rw [saveLocked_loaded]; exact loadLocked_loaded s), saveLocked_records]
    rfl

end Changing

section Atomicity

def Recoverable (s : Store) (action : Action) : Prop :=
  match action.operation with
  | .create url name nowMs draws configured =>
    extractSubQuery url.text ≠ none → (∀ entry ∈ s.contents, entry.2.url ≠ url.text) →
      ∀ code ∈ makeCodeLocked draws s.contents,
        let records := kept (configuredMaxEntries configured) (newRecord code url.text name.text nowMs) s.contents
        (∀ entry ∈ s.contents, entry ∈ records) ∨ (code ∈ records.map Prod.fst ∧ action.outcome.ok)
  | .delete code => validCode code → code ∈ s.contents.map Prod.fst → action.outcome.ok
  | _ => True

theorem mem_pruneLocked {records : Records} {maxEntries : Nat} {entry : Bytes × ShortLinkRecord}
    (there : entry ∈ pruneLocked maxEntries records) : entry ∈ records := by
  rw [pruneLocked] at there
  split at there
  next => exact there
  next => exact (List.mem_filter.mp there).1

theorem mem_erase_iff {records : Records} {code : Bytes} {entry : Bytes × ShortLinkRecord} :
    entry ∈ Keyed.erase code records ↔ entry ∈ records ∧ entry.1 ≠ code := by
  simp [Keyed.erase]

theorem same_erase_kept {record : ShortLinkRecord} {records : Records} {maxEntries : Nat}
    (fresh : record.code ∉ records.map Prod.fst) :
    SameRecords (Keyed.erase record.code (kept maxEntries record records)) records ↔
      ∀ entry ∈ records, entry ∈ kept maxEntries record records := by
  have other : ∀ entry ∈ records, entry.1 ≠ record.code := fun entry there same => fresh (same ▸ List.mem_map_of_mem there)
  constructor
  · intro same entry there
    exact (mem_erase_iff.mp ((same entry).mpr there)).1
  · intro all entry
    rw [mem_erase_iff]
    constructor
    · rintro ⟨inside, different⟩
      rcases List.mem_append.mp (mem_pruneLocked inside) with there | here
      · exact there
      · rw [List.mem_singleton.mp here] at different
        exact absurd rfl different
    · exact fun there => ⟨all entry there, other entry there⟩

theorem create_atomic_iff {url name : CString} {nowMs : UInt64} {draws : Draws} {configured : Option Nat} {outcome : WriteOutcome}
    (s : Store) : Atomic s ⟨.create url name nowMs draws configured, outcome⟩ ↔
      Recoverable s ⟨.create url name nowMs draws configured, outcome⟩ := by
  rw [Atomic, Recoverable, perform]
  dsimp only
  rcases create_cases outcome url.text name.text nowMs draws (configuredMaxEntries configured) s with
    ⟨left, same, -⟩ | ⟨code, drawn, valid, unknown, stored⟩
  · refine iff_of_true (fun _ entry => by rw [same]) ?_
    intro valid unknown code drawn
    cases left with
    | refused invalid => exact absurd invalid valid
    | known there found => exact absurd found (unknown _ there)
    | exhausted none =>
      rw [none] at drawn
      cases drawn
  · have fresh : (newRecord code url.text name.text nowMs).code ∉ s.loadLocked.records.map Prod.fst := makeCode_fresh drawn
    obtain ⟨loaded, records, succeeds, -⟩ := storeRecord_spec outcome (configuredMaxEntries configured) (loadLocked_loaded s) fresh
    rw [← stored] at loaded records succeeds
    rw [contents_of_loaded loaded, records, Bool.not_eq_true', drawn]
    constructor
    · intro atomic _ _ other same
      cases same
      cases ok : (createShortLink outcome url.text name.text nowMs draws (configuredMaxEntries configured) s).1.ok with
      | true => exact .inr (succeeds.mp ok)
      | false =>
        rw [if_neg (by simp [ok])] at atomic
        exact .inl ((same_erase_kept fresh).mp (atomic ok))
    · intro recovers failed
      rw [if_neg (by simp [failed])]
      rcases recovers valid unknown code rfl with all | succeeded
      · exact (same_erase_kept fresh).mpr all
      · rw [succeeds.mpr succeeded] at failed
        cases failed

theorem update_atomic {code : Bytes} {url name : CString} {hasName : Bool} {nowMs : UInt64} {outcome : WriteOutcome}
    (s : Store) : Atomic s ⟨.update code url name hasName nowMs, outcome⟩ := by
  intro failed entry
  rcases update_cases outcome code s url.text name.text hasName nowMs with same | ⟨previous, -, -, -, ok, -⟩
  · exact iff_of_eq (congrArg (entry ∈ ·) same)
  · simp [perform, ok] at failed

theorem delete_atomic_iff {code : Bytes} {outcome : WriteOutcome} (s : Store) :
    Atomic s ⟨.delete code, outcome⟩ ↔ Recoverable s ⟨.delete code, outcome⟩ := by
  rw [Atomic, Recoverable, perform]
  dsimp only
  rw [deleteShortLink]
  by_cases valid : validCode code
  · rw [if_neg (by simp [valid])]
    dsimp only
    by_cases stored : code ∈ s.loadLocked.records.map Prod.fst
    · rw [if_neg (not_not.mpr stored), saveLocked_ok, Bool.not_eq_true',
        contents_of_loaded (by rw [saveLocked_loaded]; exact loadLocked_loaded s), saveLocked_records]
      constructor
      · intro atomic _ _
        cases ok : outcome.ok with
        | true => rfl
        | false =>
          obtain ⟨entry, there, same⟩ := List.mem_map.mp stored
          exact absurd same (mem_erase_iff.mp ((atomic ok entry).mpr there)).2
      · intro recovers failed
        rw [recovers valid stored] at failed
        cases failed
    · rw [if_pos stored]
      refine iff_of_true (fun _ entry => by rw [contents_loadLocked]) ?_
      exact fun _ there => absurd there stored
  · rw [if_pos (by simp [valid])]
    exact iff_of_true (fun _ _ => Iff.rfl) fun valid' => absurd valid' valid

theorem resolve_atomic {code : Bytes} {nowMs : UInt64} {outcome : WriteOutcome} (s : Store) :
    Atomic s ⟨.resolve code nowMs, outcome⟩ := by
  intro failed entry
  rcases resolve_cases outcome code s nowMs with ⟨same, -⟩ | ⟨record, -, -, ok, -, -⟩
  · exact iff_of_eq (congrArg (entry ∈ ·) same)
  · simp [perform, ok] at failed

theorem atomic_iff (s : Store) (action : Action) : Atomic s action ↔ Recoverable s action := by
  obtain ⟨operation, outcome⟩ := action
  cases operation with
  | create => exact create_atomic_iff s
  | update => exact iff_of_true (update_atomic s) trivial
  | delete => exact delete_atomic_iff s
  | prune => exact iff_of_true nofun trivial
  | resolve => exact iff_of_true (resolve_atomic s) trivial

theorem run_atomic_iff (file : Option Document) (actions : List Action) :
    StepsMeet step Atomic { file := file } actions ↔ StepsMeet step Recoverable { file := file } actions := by
  have same : Atomic = Recoverable := funext fun s => funext fun action => propext (atomic_iff s action)
  rw [same]

def sampleUrl (address : String) : CString :=
  ⟨cString (ascii "/sub?target=clash&url=" ++ ascii address), by
    intro there
    simpa using List.mem_takeWhile_imp there⟩

def sampleMember (code address : String) : Bytes × Option (List (Bytes × JsonValue)) :=
  (ascii code, some [(ascii "url", .string (sampleUrl address).text), (ascii "created_at", .uint64 7)])

def sampleFile : Document := [sampleMember "abcdeXYZ" "a", sampleMember "abcdeXY2" "b", sampleMember "illegal0" "c"]

def firstDraws : Draws := fun _ _ => ⟨0, by decide⟩

theorem failures_forget :
    let s : Store := { file := some sampleFile }
    let delete : Action := ⟨.delete (ascii "abcdeXYZ"), .failed (some sampleFile)⟩
    let create : Action := ⟨.create (sampleUrl "d") (sampleUrl "d") 9 firstDraws (some 2), .failed (some sampleFile)⟩
    ((perform s delete).1 = true ∧ (perform s delete).2.contents.map Prod.fst = [ascii "abcdeXY2"]) ∧
    ((perform s create).1 = true ∧ (perform s create).2.contents.map Prod.fst = [ascii "abcdeXYZ"]) ∧
    s.contents.map Prod.fst = [ascii "abcdeXYZ", ascii "abcdeXY2"] ∧ ¬StepsMeet step Atomic s [delete] := by
  refine ⟨by decide, by decide, by decide, fun met => ?_⟩
  have recovers := (delete_atomic_iff _).mp met.1
  exact absurd (recovers (by decide) (by decide)) (by decide)

end Atomicity

section Invariant

structure Good (entry : Bytes × ShortLinkRecord) : Prop where
  code : entry.2.code = entry.1
  valid : validCode entry.1
  url : extractSubQuery entry.2.url ≠ none
  name : entry.2.name.length ≤ kMaxNameLength
  clean : 0 ∉ entry.2.url ∧ 0 ∉ entry.2.name

structure Sound (records : Records) : Prop where
  distinct : (records.map Prod.fst).Nodup
  good : ∀ entry ∈ records, Good entry

theorem sound_put {records : Records} {code : Bytes} {record : ShortLinkRecord} (sound : Sound records) (good : Good (code, record)) :
    Sound (Keyed.put code record records) :=
  ⟨Keyed.nodup_put sound.distinct, Keyed.forall_put sound.good good⟩

theorem sound_sublist {records fewer : Records} (sound : Sound records) (sublist : fewer.Sublist records) : Sound fewer :=
  ⟨(sublist.map Prod.fst).nodup sound.distinct, fun entry there => sound.good entry (sublist.subset there)⟩

theorem sound_pruneLocked {records : Records} (sound : Sound records) (maxEntries : Nat) : Sound (pruneLocked maxEntries records) := by
  rw [pruneLocked]
  split
  next => exact sound
  next => exact sound_sublist sound List.filter_sublist

theorem sound_erase {records : Records} (sound : Sound records) (code : Bytes) : Sound (Keyed.erase code records) :=
  sound_sublist sound List.filter_sublist

theorem trimName_spec {name : Bytes} (clean : 0 ∉ name) : (trimName name).length ≤ kMaxNameLength ∧ 0 ∉ trimName name := by
  rw [trimName]
  split
  next short => exact ⟨short, clean⟩
  next => exact ⟨by rw [List.length_take]; omega, fun there => clean (List.mem_of_mem_take there)⟩

theorem trimName_eq_self {name : Bytes} (short : name.length ≤ kMaxNameLength) : trimName name = name := if_pos short

theorem cString_clean (text : Bytes) : 0 ∉ cString text := by
  intro there
  simpa using List.mem_takeWhile_imp there

theorem cString_eq_self {text : Bytes} (clean : 0 ∉ text) : cString text = text := by
  rw [cString, List.takeWhile_eq_self_iff]
  intro byte there
  simp only [ne_eq, decide_eq_true_eq]
  exact fun zero => clean (zero ▸ there)

theorem code_clean {code : Bytes} (valid : validCode code) : 0 ∉ code := by
  intro there
  rw [validCode, Bool.and_eq_true, List.all_eq_true] at valid
  exact absurd (valid.2 0 there) (by decide)

theorem drawnCode_valid (draws : Draws) (attempt : Nat) : validCode (drawnCode draws attempt) := by
  rw [validCode, Bool.and_eq_true, List.all_eq_true]
  refine ⟨by simp [drawnCode], fun ch there => ?_⟩
  obtain ⟨index, -, rfl⟩ := List.mem_map.mp there
  exact decide_eq_true (List.get_mem _ _)

theorem nameOf_spec (value : Option JsonValue) : (nameOf value).length ≤ kMaxNameLength ∧ 0 ∉ nameOf value := by
  rw [nameOf.eq_def]
  split
  next text => exact trimName_spec (cString_clean text)
  next => simp

theorem loadRecord_good {member : Bytes × Option (List (Bytes × JsonValue))} {entry : Bytes × ShortLinkRecord}
    (read : loadRecord member = some entry) : Good entry := by
  rw [loadRecord] at read
  simp only [Option.bind_eq_bind, Option.bind_eq_some_iff] at read
  obtain ⟨value, -, read⟩ := read
  split at read
  next text found =>
    rw [Option.ite_none_left_eq_some, not_or, Bool.not_eq_true', Bool.not_eq_false] at read
    obtain ⟨⟨valid, url⟩, same⟩ := read
    cases same
    have named := nameOf_spec (Keyed.find (ascii "name") value)
    exact ⟨rfl, valid, url, named.1, cString_clean text, named.2⟩
  next => cases read

theorem sound_readRecords (file : Option Document) : Sound (readRecords file) := by
  apply Keyed.foldl_put_keeps
  · exact ⟨by simp, by simp⟩
  · intro records entry there sound
    obtain ⟨member, -, read⟩ := List.mem_filterMap.mp there
    exact sound_put sound (loadRecord_good read)

theorem loadRecord_object {code text : Bytes} {value : List (Bytes × JsonValue)}
    (found : Keyed.find (ascii "url") value = some (.string text)) :
    loadRecord (code, some value) =
      if !validCode (cString code) ∨ extractSubQuery (cString text) = none then none
      else some (cString code, ⟨cString code, cString text, nameOf (Keyed.find (ascii "name") value),
        valueUint64 (Keyed.find (ascii "created_at") value), valueUint64 (Keyed.find (ascii "last_access_at") value),
        valueUint64 (Keyed.find (ascii "updated_at") value)⟩) := by
  simp only [loadRecord, Option.bind_eq_bind, Option.bind_some, found]
  rfl

theorem loadRecord_writeRecord {entry : Bytes × ShortLinkRecord} (good : Good entry) :
    loadRecord (writeRecord entry) = some entry := by
  obtain ⟨code, record⟩ := entry
  obtain ⟨same, valid, url, name, cleanUrl, cleanName⟩ := good
  simp only at same valid url name cleanUrl cleanName
  have refuses : ¬(!validCode code ∨ extractSubQuery record.url = none) := by simp [valid, url]
  rw [writeRecord, cString_eq_self (code_clean valid), cString_eq_self cleanUrl, cString_eq_self cleanName]
  rw [loadRecord_object rfl, cString_eq_self (code_clean valid), cString_eq_self cleanUrl, if_neg refuses]
  simp only [Option.some.injEq, Prod.mk.injEq, true_and]
  change ShortLinkRecord.mk code record.url (trimName (cString record.name)) record.createdAt record.lastAccessAt record.updatedAt =
    record
  rw [cString_eq_self cleanName, trimName_eq_self name, ← same]

theorem readRecords_writeRecords {records : Records} (sound : Sound records) :
    readRecords (some (writeRecords records)) = records := by
  have all : (writeRecords records).filterMap loadRecord = records := by
    rw [writeRecords, List.filterMap_map]
    conv_rhs => rw [← List.filterMap_some (l := records)]
    exact List.filterMap_congr fun entry there => loadRecord_writeRecord (sound.good entry there)
  rw [readRecords, Option.getD_some, all]
  exact Keyed.foldl_put records sound.distinct

theorem length_pruneLocked {records : Records} {maxEntries : Nat} (sound : Sound records) (limited : 0 < maxEntries) :
    (pruneLocked maxEntries records).length ≤ maxEntries := by
  rw [pruneLocked]
  split
  next small => omega
  next large =>
    have order : ((candidates records).map Prod.fst).Perm (records.map Prod.fst) := by
      have moved := (List.perm_insertionSort (fun left right => (candidateLe left right : Prop))
        (records.map fun entry => (entry.1, retentionTime entry.2))).map Prod.fst
      simpa [candidates, Function.comp_def] using moved
    have taken : pruned maxEntries records = ((candidates records).map Prod.fst).take (records.length - maxEntries) := by
      rw [pruned, List.map_take]
    have once : (pruned maxEntries records).Nodup := by
      rw [taken]
      exact (order.nodup_iff.mpr sound.distinct).sublist (List.take_sublist _ _)
    have known : ∀ code ∈ pruned maxEntries records, code ∈ records.map Prod.fst := by
      intro code there
      rw [taken] at there
      exact order.subset (List.mem_of_mem_take there)
    have count : (pruned maxEntries records).length = records.length - maxEntries := by
      have size := order.length_eq
      rw [List.length_map, List.length_map] at size
      rw [taken, List.length_take, List.length_map, size]
      omega
    have balance : (records.filter fun entry => entry.1 ∉ pruned maxEntries records).length +
        (pruned maxEntries records).length = records.length := by
      convert Keyed.length_filter_not_mem sound.distinct once known
    omega

theorem newRecord_good {draws : Draws} {records : Records} {code : Bytes} {url : CString} (name : CString) (nowMs : UInt64)
    (drawn : makeCodeLocked draws records = some code) (valid : extractSubQuery url.text ≠ none) :
    Good (code, newRecord code url.text name.text nowMs) := by
  obtain ⟨attempt, rfl⟩ := makeCode_drawn drawn
  have named := trimName_spec name.clean
  exact ⟨rfl, drawnCode_valid draws attempt, valid, named.1, url.clean, named.2⟩

theorem sound_kept {records : Records} {record : ShortLinkRecord} (maxEntries : Nat) (sound : Sound records)
    (good : Good (record.code, record)) (fresh : record.code ∉ records.map Prod.fst) : Sound (kept maxEntries record records) := by
  have longer := sound_put sound good
  rw [Keyed.put_of_not_mem fresh] at longer
  exact sound_pruneLocked longer maxEntries

theorem sound_create {s : Store} (sound : Sound s.contents) (outcome : WriteOutcome) (url name : CString) (nowMs : UInt64)
    (draws : Draws) (maxEntries : Nat) : Sound (createShortLink outcome url.text name.text nowMs draws maxEntries s).2.contents := by
  rcases create_cases outcome url.text name.text nowMs draws maxEntries s with ⟨-, same, -⟩ | ⟨code, drawn, valid, -, stored⟩
  · rwa [same]
  · have fresh : (newRecord code url.text name.text nowMs).code ∉ s.loadLocked.records.map Prod.fst := makeCode_fresh drawn
    have more := sound_kept maxEntries sound (newRecord_good name nowMs drawn valid) fresh
    obtain ⟨loaded, records, -, -⟩ := storeRecord_spec outcome maxEntries (loadLocked_loaded s) fresh
    rw [stored, contents_of_loaded loaded, records]
    split
    next => exact more
    next => exact sound_erase more _

theorem sound_step {s next : Store} {action : Action} (sound : Sound s.contents) (stepped : step s action = some next) :
    Sound next.contents := by
  obtain rfl := Option.some.inj stepped
  obtain ⟨operation, outcome⟩ := action
  cases operation with
  | create url name nowMs draws configured => exact sound_create sound outcome url name nowMs draws _
  | update code url name hasName nowMs =>
    rcases update_cases outcome code s url.text name.text hasName nowMs with same | ⟨previous, found, -, valid, -, changed⟩
    · rwa [perform, same]
    · have good := sound.good _ (Keyed.mem_of_find found)
      rw [perform, changed]
      refine sound_put sound ⟨good.code, good.valid, valid, ?_, url.clean, ?_⟩
      · cases hasName
        · exact good.name
        · exact (trimName_spec name.clean).1
      · cases hasName
        · exact good.clean.2
        · exact (trimName_spec name.clean).2
  | delete code =>
    change Sound (deleteShortLink outcome code s).2.contents
    rw [deleteShortLink]
    split
    next => exact sound
    next =>
      dsimp only
      split
      next => rwa [contents_loadLocked]
      next =>
        rw [contents_of_loaded (by rw [saveLocked_loaded]; exact loadLocked_loaded s), saveLocked_records]
        exact sound_erase sound code
  | prune maxEntries =>
    change Sound (pruneShortLinks outcome maxEntries s).contents
    rw [pruneShortLinks, contents_of_loaded (by rw [saveLocked_loaded]; exact loadLocked_loaded s), saveLocked_records]
    exact sound_pruneLocked sound maxEntries
  | resolve code nowMs =>
    rcases resolve_cases outcome code s nowMs with ⟨same, -⟩ | ⟨record, found, -, -, -, changed⟩
    · rwa [perform, same]
    · have good := sound.good _ (Keyed.mem_of_find found)
      rw [perform, changed]
      exact sound_put sound ⟨good.code, good.valid, good.url, good.name, good.clean⟩

theorem sound_run {file : Option Document} {actions : List Action} {s : Store}
    (ran : runSteps step { file := file } actions = some s) : Sound s.contents := by
  have start : Sound (Store.contents { file := file }) := sound_readRecords file
  exact @runSteps_keeps _ _ step _ _ _ (fun s => Sound s.contents) sound_step start ran

structure Respects (s : Store) : Prop where
  sound : Sound s.contents
  reload : readRecords (some (writeRecords s.contents)) = s.contents
  limited : ∀ (outcome : WriteOutcome) (url name : CString) (nowMs : UInt64) (draws : Draws) (configured : Option Nat),
    let after := createShortLink outcome url.text name.text nowMs draws (configuredMaxEntries configured) s
    after.1.ok → after.1.code ∉ s.contents.map Prod.fst → after.2.contents.length ≤ configuredMaxEntries configured
  updated : ∀ (outcome : WriteOutcome) (code : Bytes) (url name : CString) (hasName : Bool) (nowMs : UInt64),
    let after := updateShortLink outcome code url.text name.text hasName nowMs s
    after.2.contents.map Prod.fst = s.contents.map Prod.fst ∧
    (∀ entry, entry.1 ≠ code → (entry ∈ after.2.contents ↔ entry ∈ s.contents)) ∧
    ∀ before changed, (code, before) ∈ s.contents → (code, changed) ∈ after.2.contents →
      changed.code = before.code ∧ changed.createdAt = before.createdAt ∧ changed.lastAccessAt = before.lastAccessAt
  resolved : ∀ (outcome : WriteOutcome) (code : Bytes) (nowMs : UInt64), code ∈ s.contents.map Prod.fst →
    ∃ record, (resolveShortLink outcome code nowMs s).1.record = some record ∧ shortLinkSubTarget record.url ≠ none

theorem configuredMaxEntries_pos (configured : Option Nat) : 0 < configuredMaxEntries configured := by
  rw [configuredMaxEntries.eq_def]
  split <;> simp [kDefaultMaxEntries]

theorem create_limited {s : Store} (sound : Sound s.contents) (outcome : WriteOutcome) (url name : CString) (nowMs : UInt64)
    (draws : Draws) {maxEntries : Nat} (limited : 0 < maxEntries) :
    let after := createShortLink outcome url.text name.text nowMs draws maxEntries s
    after.1.ok → after.1.code ∉ s.contents.map Prod.fst → after.2.contents.length ≤ maxEntries := by
  intro after ok new
  rcases create_cases outcome url.text name.text nowMs draws maxEntries s with
    ⟨-, -, known⟩ | ⟨code, drawn, valid, -, stored⟩
  · exact absurd (known ok) new
  · have fresh : (newRecord code url.text name.text nowMs).code ∉ s.loadLocked.records.map Prod.fst := makeCode_fresh drawn
    have longer := sound_put sound (newRecord_good name nowMs drawn valid)
    rw [Keyed.put_of_not_mem (makeCode_fresh drawn)] at longer
    obtain ⟨loaded, records, -, -⟩ := storeRecord_spec outcome maxEntries (loadLocked_loaded s) fresh
    rw [← stored] at loaded records
    rw [contents_of_loaded loaded, records, if_pos ok]
    exact length_pruneLocked longer limited

theorem updated_keeps {s : Store} (sound : Sound s.contents) (outcome : WriteOutcome) (code url name : Bytes) (hasName : Bool)
    (nowMs : UInt64) :
    let after := updateShortLink outcome code url name hasName nowMs s
    after.2.contents.map Prod.fst = s.contents.map Prod.fst ∧
    (∀ entry, entry.1 ≠ code → (entry ∈ after.2.contents ↔ entry ∈ s.contents)) ∧
    ∀ before changed, (code, before) ∈ s.contents → (code, changed) ∈ after.2.contents →
      changed.code = before.code ∧ changed.createdAt = before.createdAt ∧ changed.lastAccessAt = before.lastAccessAt := by
  intro after
  have only : ∀ {left right : ShortLinkRecord}, (code, left) ∈ s.contents → (code, right) ∈ s.contents → left = right :=
    fun here there => Option.some.inj ((Keyed.find_of_mem sound.distinct here).symm.trans (Keyed.find_of_mem sound.distinct there))
  rcases update_cases outcome code s url name hasName nowMs with same | ⟨previous, found, -, -, -, changed⟩
  · rw [same]
    refine ⟨rfl, fun _ _ => Iff.rfl, ?_⟩
    rintro before changed here there
    rw [only here there]
    exact ⟨rfl, rfl, rfl⟩
  · have stored := Keyed.mem_of_find found
    rw [changed]
    refine ⟨?_, ?_, ?_⟩
    · rw [Keyed.keys_put, if_pos (List.mem_map_of_mem stored)]
    · intro entry other
      rw [Keyed.mem_put sound.distinct]
      constructor
      · rintro (rfl | ⟨there, -⟩)
        · exact absurd rfl other
        · exact there
      · exact fun there => .inr ⟨there, other⟩
    · intro before after here there
      rcases (Keyed.mem_put sound.distinct).mp there with same | ⟨-, other⟩
      · cases same
        rw [only here stored]
        exact ⟨rfl, rfl, rfl⟩
      · exact absurd rfl other

theorem resolved_valid {s : Store} (sound : Sound s.contents) (outcome : WriteOutcome) {code : Bytes} (nowMs : UInt64)
    (stored : code ∈ s.contents.map Prod.fst) :
    ∃ record, (resolveShortLink outcome code nowMs s).1.record = some record ∧ shortLinkSubTarget record.url ≠ none := by
  obtain ⟨entry, there, rfl⟩ := List.mem_map.mp stored
  rcases resolve_cases outcome entry.1 s nowMs with ⟨-, invalid | absent⟩ | ⟨record, found, -, -, answer, -⟩
  · rw [(sound.good entry there).valid] at invalid
    cases invalid
  · exact absurd stored absent
  · refine ⟨_, answer, ?_⟩
    have valid := (sound.good _ (Keyed.mem_of_find found)).url
    simpa [shortLinkSubTarget] using valid

theorem store_respects {file : Option Document} {actions : List Action} {s : Store}
    (ran : runSteps step { file := file } actions = some s) : Respects s := by
  have sound := sound_run ran
  exact ⟨sound, readRecords_writeRecords sound,
    fun outcome url name nowMs draws configured =>
      create_limited sound outcome url name nowMs draws (configuredMaxEntries_pos configured),
    fun outcome code url name hasName nowMs => updated_keeps sound outcome code url.text name.text hasName nowMs,
    fun outcome code nowMs stored => resolved_valid sound outcome nowMs stored⟩

def sampleActions : List Action :=
  [⟨.create (sampleUrl "d") (sampleUrl "d") 9 firstDraws (some 2), .committed⟩,
    ⟨.update (ascii "abcdeXYZ") (sampleUrl "e") (sampleUrl "e") true 10, .committed⟩, ⟨.resolve (ascii "aaaaaaaa") 11, .committed⟩,
    ⟨.delete (ascii "abcdeXYZ"), .committed⟩, ⟨.prune 5, .committed⟩]

theorem store_respects_sample :
    ∃ s, runSteps step { file := some sampleFile } sampleActions = some s ∧ s.contents.map Prod.fst = [ascii "aaaaaaaa"] ∧
      Respects s := by
  obtain ⟨s, ran, codes⟩ : ∃ s ∈ runSteps step { file := some sampleFile } sampleActions,
      s.contents.map Prod.fst = [ascii "aaaaaaaa"] := by
    decide
  exact ⟨s, ran, codes, store_respects ran⟩

theorem create_over_limit :
    let s : Store := { file := some sampleFile }
    let after := createShortLink .committed (sampleUrl "b").text [] 9 firstDraws (configuredMaxEntries (some 1)) s
    runSteps step { file := some sampleFile } [] = some s ∧ after.1 = answered (ascii "abcdeXY2") ∧
      configuredMaxEntries (some 1) < after.2.contents.length :=
  ⟨rfl, by decide, by decide⟩

end Invariant

end SubConverter.Handler.ShortLinks
