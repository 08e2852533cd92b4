import SubConverter.Lib.Interleaving
import SubConverter.Lib.Keyed
import SubConverter.Lib.Recency
import SubConverter.Handler.SubRequestKey

set_option autoImplicit false

namespace SubConverter.Handler

section Responses

structure CoalescedResponse where
  statusCode : Int := 200
  contentType : Text := []
  headers : HeaderMap := .empty
  body : Option Text := none
  fallbackBody : Text := []
deriving DecidableEq

def CoalescedResponse.noStore (response : CoalescedResponse) : Bool :=
  (response.headers.find (chars "Cache-Control")).any fun header => chars "no-store" <:+: toLower header.2

-- Sizes of texts in memory, whose sum is in range.
def coalescedResponseBytes (response : CoalescedResponse) : Nat :=
  ((response.body.map List.length).getD response.fallbackBody.length) + response.contentType.length +
    total (fun header => header.1.length + header.2.length) response.headers.entries

end Responses

section Limits

/-- `std::stoull`; nothing when it throws. -/
def stoull (text : Text) : Option Nat :=
  let signed := text.dropWhile isSpace
  let digits := (if signed.head? = some '-' ∨ signed.head? = some '+' then signed.drop 1 else signed).takeWhile Char.isDigit
  if digits = [] ∨ 2 ^ 64 ≤ digitsValue digits then none
  else if signed.head? = some '-' then some ((2 ^ 64 - digitsValue digits) % 2 ^ 64)
  else some (digitsValue digits)

def subResponseCacheMaxBytes (configured : Text) : Nat :=
  match stoull configured with
  | none => 8 * 1024 * 1024
  | some limit => max 1024 (min limit (64 * 1024 * 1024))

theorem subResponseCacheMaxBytes_le (configured : Text) : subResponseCacheMaxBytes configured ≤ 64 * 1024 * 1024 := by
  unfold subResponseCacheMaxBytes
  split <;> omega

end Limits

section Cache

structure CachedSubResponse where
  result : CoalescedResponse
  expiresAt : Nat
  bytes : Nat
  sequence : Nat
deriving DecidableEq

/-- The entries of `g_sub_response_cache` and its two counters; `sequence` is a `uint64_t` there and stays below the number of calls. -/
structure SubResponseCache where
  entries : List (Text × CachedSubResponse) := []
  bytes : Nat := 0
  sequence : Nat := 0
deriving DecidableEq

/-- Ticks of the steady clock. -/
def ticksPerSecond : Nat := 1000000000

def kMaxCacheEntries : Nat := 2048

namespace SubResponseCache

variable (cache : SubResponseCache)

def eraseEntry (key : Text) : SubResponseCache :=
  match Keyed.find key cache.entries with
  | none => cache
  | some entry => { cache with
    bytes := if entry.bytes ≤ cache.bytes then cache.bytes - entry.bytes else 0
    entries := Keyed.erase key cache.entries }

def pruneExpired (now : Nat) : SubResponseCache :=
  cache.entries.foldl (fun cache entry => if entry.2.expiresAt ≤ now then cache.eraseEntry entry.1 else cache) cache

def evictOldest : SubResponseCache :=
  match cache.entries.argmin fun entry => entry.2.sequence with
  | none => cache
  | some oldest => cache.eraseEntry oldest.1

def full (room : Nat) : Bool := cache.entries ≠ [] && (kMaxCacheEntries ≤ cache.entries.length || room < cache.bytes)

/-- The eviction loop; nothing when it has not stopped after so many rounds. -/
def evictUntil (room : Nat) : Nat → SubResponseCache → Option SubResponseCache
  | 0, _ => none
  | rounds + 1, cache => if cache.full room then evictUntil room rounds cache.evictOldest else some cache

def evictedFrom (room : Nat) : Nat → SubResponseCache → List SubResponseCache
  | 0, _ => []
  | rounds + 1, cache => if cache.full room then cache :: evictedFrom room rounds cache.evictOldest else []

def getCached (key : Text) (responseCacheTtl : Int) (now : Nat) : Option CoalescedResponse × SubResponseCache :=
  if responseCacheTtl ≤ 0 then (none, cache)
  else
    match Keyed.find key cache.entries with
    | none => (none, cache)
    | some entry =>
      if entry.expiresAt ≤ now then (none, cache.eraseEntry key)
      else
        (some entry.result, { cache with
          sequence := cache.sequence + 1
          entries := Keyed.put key { entry with sequence := cache.sequence + 1 } cache.entries })

def cacheable (result : Option CoalescedResponse) (responseCacheTtl : Int) : Option CoalescedResponse :=
  result.filter fun response => decide (0 < responseCacheTtl) && decide (response.statusCode = 200) && !response.noStore

def cleared (key : Text) (now : Nat) : SubResponseCache := (cache.pruneExpired now).eraseEntry key

-- The key is not in the map any more, so the new entry is taken.
def store (maxBytes : Nat) (key : Text) (response : CoalescedResponse) (responseCacheTtl : Int) (now : Nat) : SubResponseCache :=
  let bytes := coalescedResponseBytes response
  if maxBytes < bytes then cache.pruneExpired now
  else
    let cleared := cache.cleared key now
    let roomy := (evictUntil (maxBytes - bytes) (cleared.entries.length + 1) cleared).getD cleared
    { sequence := roomy.sequence + 1
      bytes := add64 roomy.bytes bytes
      entries := roomy.entries ++
        [(key, ⟨response, now + (min responseCacheTtl 5).toNat * ticksPerSecond, bytes, roomy.sequence + 1⟩)] }

def storeCached (maxBytes : Nat) (key : Text) (result : Option CoalescedResponse) (responseCacheTtl : Int) (now : Nat) :
    SubResponseCache :=
  match cacheable result responseCacheTtl with
  | none => cache
  | some response => cache.store maxBytes key response responseCacheTtl now

end SubResponseCache

end Cache

section Entries

namespace SubResponseCache

variable {cache : SubResponseCache} {key : Text} {now room rounds : Nat}

structure Counted (cache : SubResponseCache) : Prop where
  distinct : (cache.entries.map Prod.fst).Nodup
  bytes : cache.bytes = total (fun entry => entry.2.bytes) cache.entries

structure Shrinks (cache later : SubResponseCache) : Prop where
  entries : later.entries.Sublist cache.entries
  sequence : later.sequence = cache.sequence

theorem Shrinks.refl (cache : SubResponseCache) : cache.Shrinks cache := ⟨List.Sublist.refl _, rfl⟩

theorem Shrinks.trans {first second third : SubResponseCache} (one : first.Shrinks second) (two : second.Shrinks third) :
    first.Shrinks third :=
  ⟨two.entries.trans one.entries, two.sequence.trans one.sequence⟩

theorem total_erase {entries : List (Text × CachedSubResponse)} {entry : CachedSubResponse}
    (distinct : (entries.map Prod.fst).Nodup) (found : Keyed.find key entries = some entry) :
    total (fun entry => entry.2.bytes) (Keyed.erase key entries) + entry.bytes = total (fun entry => entry.2.bytes) entries := by
  induction entries with
  | nil => cases found
  | cons first rest ih =>
    rw [List.map_cons, List.nodup_cons] at distinct
    rw [Keyed.find_cons] at found
    rw [Keyed.erase, List.filter_cons]
    by_cases same : first.1 = key
    · rw [if_pos same, Option.some.injEq] at found
      have others : rest.filter (fun entry => entry.1 ≠ key) = rest := by
        rw [List.filter_eq_self]
        intro entry there
        simp only [ne_eq, decide_eq_true_eq]
        exact fun here => distinct.1 (same.trans here.symm ▸ List.mem_map_of_mem there)
      simp only [same, ne_eq, not_true_eq_false, decide_false, Bool.false_eq_true, if_false, total_cons, found]
      simp only [ne_eq] at others
      rw [others, Nat.add_comm]
    · rw [if_neg same] at found
      have later := ih distinct.2 found
      rw [Keyed.erase] at later
      simp only [same, ne_eq, not_false_eq_true, decide_true, if_true, total_cons]
      simp only [ne_eq] at later
      omega

theorem eraseEntry_shrinks : cache.Shrinks (cache.eraseEntry key) := by
  unfold eraseEntry
  split
  · exact Shrinks.refl cache
  · exact ⟨List.filter_sublist, rfl⟩

theorem Counted.eraseEntry (counted : cache.Counted) : (cache.eraseEntry key).Counted := by
  unfold SubResponseCache.eraseEntry
  split
  · exact counted
  · rename_i entry found
    have removed := total_erase counted.distinct found
    refine ⟨counted.distinct.sublist (List.filter_sublist.map _), ?_⟩
    dsimp only
    rw [counted.bytes, if_pos (by omega)]
    omega

theorem eraseEntry_entries : (cache.eraseEntry key).entries = Keyed.erase key cache.entries := by
  unfold eraseEntry
  split
  · rename_i missing
    rw [Keyed.find_eq_none_iff] at missing
    rw [Keyed.erase, eq_comm, List.filter_eq_self]
    intro entry there
    simp only [ne_eq, decide_eq_true_eq]
    exact fun same => missing (same ▸ List.mem_map_of_mem there)
  · rfl

theorem pruneExpired_keeps (Holds : SubResponseCache → Prop) (holds : Holds cache)
    (keeps : ∀ {cache key}, Holds cache → Holds (cache.eraseEntry key)) : Holds (cache.pruneExpired now) := by
  unfold pruneExpired
  generalize cache.entries = entries
  induction entries generalizing cache with
  | nil => exact holds
  | cons entry rest ih =>
    rw [List.foldl_cons]
    split
    · exact ih (keeps holds)
    · exact ih holds

theorem pruneExpired_shrinks : cache.Shrinks (cache.pruneExpired now) :=
  pruneExpired_keeps cache.Shrinks (Shrinks.refl cache) fun kept => kept.trans eraseEntry_shrinks

theorem Counted.pruneExpired (counted : cache.Counted) : (cache.pruneExpired now).Counted :=
  pruneExpired_keeps Counted counted Counted.eraseEntry

theorem cleared_shrinks : cache.Shrinks (cache.cleared key now) := pruneExpired_shrinks.trans eraseEntry_shrinks

theorem Counted.cleared (counted : cache.Counted) : (cache.cleared key now).Counted := counted.pruneExpired.eraseEntry

theorem key_not_mem_cleared : key ∉ (cache.cleared key now).entries.map Prod.fst := by
  rw [SubResponseCache.cleared, eraseEntry_entries, Keyed.erase]
  simp

end SubResponseCache

end Entries

section Evictions

namespace SubResponseCache

variable {cache later : SubResponseCache} {key : Text} {room rounds : Nat}

theorem evictOldest_spec (filled : cache.entries ≠ []) :
    ∃ oldest ∈ cache.entries, cache.evictOldest = cache.eraseEntry oldest.1 ∧
      ∀ entry ∈ cache.entries, oldest.2.sequence ≤ entry.2.sequence := by
  unfold evictOldest
  cases found : cache.entries.argmin fun entry => entry.2.sequence with
  | none => exact absurd (List.argmin_eq_none.mp found) filled
  | some oldest =>
    have least : ∀ entry ∈ cache.entries, oldest.2.sequence ≤ entry.2.sequence := by
      intro entry there
      exact List.le_of_mem_argmin (f := fun entry => entry.2.sequence) there found
    exact ⟨oldest, List.argmin_mem found, rfl, least⟩

theorem evictOldest_shrinks : cache.Shrinks cache.evictOldest := by
  unfold evictOldest
  split
  · exact Shrinks.refl cache
  · exact eraseEntry_shrinks

theorem Counted.evictOldest (counted : cache.Counted) : cache.evictOldest.Counted := by
  unfold SubResponseCache.evictOldest
  split
  · exact counted
  · exact counted.eraseEntry

theorem evictOldest_length (filled : cache.entries ≠ []) : cache.evictOldest.entries.length < cache.entries.length := by
  obtain ⟨oldest, there, erased, -⟩ := evictOldest_spec filled
  rw [erased, eraseEntry_entries, Keyed.erase, List.length_filter_lt_length_iff_exists]
  exact ⟨oldest, there, by simp⟩

theorem filled_of_full (full : cache.full room = true) : cache.entries ≠ [] := by
  simp only [SubResponseCache.full, Bool.and_eq_true, decide_eq_true_eq] at full
  exact full.1

theorem evictUntil_ends (room : Nat) (enough : cache.entries.length < rounds) : ∃ later, evictUntil room rounds cache = some later := by
  induction rounds generalizing cache with
  | zero => omega
  | succ rounds ih =>
    rw [evictUntil]
    split
    next full =>
      have fewer := evictOldest_length (filled_of_full full)
      exact ih (by omega)
    next => exact ⟨cache, rfl⟩

theorem evictUntil_keeps (Holds : SubResponseCache → Prop) (holds : Holds cache)
    (keeps : ∀ {cache}, Holds cache → Holds cache.evictOldest) (ended : evictUntil room rounds cache = some later) : Holds later := by
  induction rounds generalizing cache with
  | zero => cases ended
  | succ rounds ih =>
    rw [evictUntil] at ended
    split at ended
    · exact ih (keeps holds) ended
    · cases ended
      exact holds

theorem evictedFrom_keeps (Holds : SubResponseCache → Prop) (holds : Holds cache)
    (keeps : ∀ {cache}, Holds cache → Holds cache.evictOldest) :
    ∀ evicted ∈ evictedFrom room rounds cache, Holds evicted ∧ evicted.entries ≠ [] := by
  induction rounds generalizing cache with
  | zero => simp [evictedFrom]
  | succ rounds ih =>
    rw [evictedFrom]
    split
    next full =>
      rw [List.forall_mem_cons]
      exact ⟨⟨holds, filled_of_full full⟩, ih (keeps holds)⟩
    next => simp

theorem not_full_of_ended (ended : evictUntil room rounds cache = some later) : later.full room = false := by
  induction rounds generalizing cache with
  | zero => cases ended
  | succ rounds ih =>
    rw [evictUntil] at ended
    split at ended
    · exact ih ended
    next roomy =>
      cases ended
      exact Bool.not_eq_true _ ▸ roomy

end SubResponseCache

end Evictions

section Runs

inductive CacheUse where
  | stored (key : Text) (response : CoalescedResponse) (time : Nat)
  | found (key : Text)
deriving DecidableEq

def CacheUse.key : CacheUse → Text
  | .stored key _ _ | .found key => key

def lastStored (key : Text) : List CacheUse → Option (CoalescedResponse × Nat)
  | [] => none
  | .stored other response time :: uses => if other = key then some (response, time) else lastStored key uses
  | .found _ :: uses => lastStored key uses

inductive CacheCall where
  | store (key : Text) (result : Option CoalescedResponse) (responseCacheTtl : Int)
  | get (key : Text) (responseCacheTtl : Int)
  | snapshot
deriving DecidableEq

structure CacheRun where
  cache : SubResponseCache := {}
  uses : List CacheUse := []
  now : Nat := 0
deriving DecidableEq

namespace CacheRun

variable (maxBytes : Nat) (run : CacheRun)

def accepted (result : Option CoalescedResponse) (responseCacheTtl : Int) : Option CoalescedResponse :=
  (SubResponseCache.cacheable result responseCacheTtl).filter fun response => coalescedResponseBytes response ≤ maxBytes

def perform (now : Nat) : CacheCall → CacheRun
  | .store key result responseCacheTtl =>
    { cache := run.cache.storeCached maxBytes key result responseCacheTtl now
      uses := ((accepted maxBytes result responseCacheTtl).map fun response => .stored key response now).toList ++ run.uses
      now := now }
  | .get key responseCacheTtl =>
    { cache := (run.cache.getCached key responseCacheTtl now).2
      uses := ((run.cache.getCached key responseCacheTtl now).1.map fun _ => .found key).toList ++ run.uses
      now := now }
  | .snapshot => { run with cache := run.cache.pruneExpired now, now := now }

-- The clock is steady.
def step (run : CacheRun) (call : Nat × CacheCall) : Option CacheRun :=
  if call.1 < run.now then none else some (run.perform maxBytes call.1 call.2)

structure Known (uses : List CacheUse) (now : Nat) (key : Text) (entry : CachedSubResponse) : Prop where
  status : entry.result.statusCode = 200
  storable : entry.result.noStore = false
  bytes : entry.bytes = coalescedResponseBytes entry.result
  sequence : entry.sequence = lastUse key (uses.map CacheUse.key)
  used : entry.sequence ≠ 0
  stored : ∃ time, lastStored key uses = some (entry.result, time) ∧ time ≤ now ∧ entry.expiresAt ≤ time + 5 * ticksPerSecond

structure Sound (run : CacheRun) : Prop where
  counted : run.cache.Counted
  limit : run.cache.bytes ≤ maxBytes
  entries : run.cache.entries.length ≤ kMaxCacheEntries
  sequence : run.cache.sequence = run.uses.length
  known : ∀ entry ∈ run.cache.entries, Known run.uses run.now entry.1 entry.2

end CacheRun

end Runs

section Steps

namespace CacheRun

open SubResponseCache

variable {maxBytes now now' : Nat} {run next : CacheRun} {uses : List CacheUse} {key : Text} {entry : CachedSubResponse}
  {later : SubResponseCache} {responseCacheTtl : Int} {response : CoalescedResponse}

theorem Known.delayed (known : Known uses now key entry) (order : now ≤ now') : Known uses now' key entry := by
  obtain ⟨time, stored, before, fresh⟩ := known.stored
  exact ⟨known.status, known.storable, known.bytes, known.sequence, known.used, time, stored, before.trans order, fresh⟩

theorem Known.other {use : CacheUse} (known : Known uses now key entry) (different : use.key ≠ key) :
    Known (use :: uses) now key entry := by
  refine ⟨known.status, known.storable, known.bytes, ?_, known.used, ?_⟩
  · rw [List.map_cons, lastUse_of_ne different]
    exact known.sequence
  · obtain ⟨time, stored, order⟩ := known.stored
    refine ⟨time, ?_, order⟩
    cases use with
    | stored other response time =>
      have apart : other ≠ key := different
      rw [lastStored, if_neg apart, stored]
    | found other => rw [lastStored, stored]

theorem Known.hit (known : Known uses now key entry) :
    Known (.found key :: uses) now key { entry with sequence := uses.length + 1 } := by
  refine ⟨known.status, known.storable, known.bytes, ?_, Nat.succ_ne_zero _, known.stored⟩
  rw [List.map_cons, CacheUse.key, lastUse_self, List.length_map]

theorem total_sublist {entries kept : List (Text × CachedSubResponse)} (some : kept.Sublist entries) :
    total (fun entry => entry.2.bytes) kept ≤ total (fun entry => entry.2.bytes) entries := by
  induction some with
  | slnil => exact Nat.le_refl _
  | cons entry _ ih =>
    rw [total_cons]
    omega
  | cons_cons entry _ ih =>
    rw [total_cons, total_cons]
    omega

theorem Sound.shrink (sound : run.Sound maxBytes) (shrinks : run.cache.Shrinks later) (counted : later.Counted)
    (order : run.now ≤ now) : Sound maxBytes { run with cache := later, now := now } := by
  have fewer := total_sublist shrinks.entries
  constructor
  case counted => exact counted
  case limit => exact (counted.bytes.trans_le (fewer.trans sound.counted.bytes.ge)).trans sound.limit
  case entries => exact shrinks.entries.length_le.trans sound.entries
  case sequence => exact shrinks.sequence.trans sound.sequence
  case known => exact fun entry there => (sound.known entry (shrinks.entries.subset there)).delayed order

theorem total_put {entries : List (Text × CachedSubResponse)} {changed : CachedSubResponse}
    (found : Keyed.find key entries = some entry) (same : changed.bytes = entry.bytes) :
    total (fun entry => entry.2.bytes) (Keyed.put key changed entries) = total (fun entry => entry.2.bytes) entries := by
  induction entries with
  | nil => cases found
  | cons first rest ih =>
    rw [Keyed.find_cons] at found
    rw [Keyed.put]
    split at found
    next here =>
      cases found
      rw [if_pos here, total_cons, total_cons, same]
    next other => rw [if_neg other, total_cons, total_cons, ih found]

theorem keys_put_of_found {entries : List (Text × CachedSubResponse)} (changed : CachedSubResponse)
    (found : Keyed.find key entries = some entry) : (Keyed.put key changed entries).map Prod.fst = entries.map Prod.fst := by
  have there : key ∈ entries.map Prod.fst := List.mem_map_of_mem (Keyed.mem_of_find found)
  rw [Keyed.keys_put, if_pos there]

theorem Sound.hit (sound : run.Sound maxBytes) (found : Keyed.find key run.cache.entries = some entry)
    (order : run.now ≤ now) :
    Sound maxBytes {
      cache := { run.cache with
        sequence := run.cache.sequence + 1
        entries := Keyed.put key { entry with sequence := run.cache.sequence + 1 } run.cache.entries }
      uses := .found key :: run.uses
      now := now } := by
  have keys := keys_put_of_found { entry with sequence := run.cache.sequence + 1 } found
  have bytes : total (fun entry => entry.2.bytes) (Keyed.put key { entry with sequence := run.cache.sequence + 1 } run.cache.entries) =
      total (fun entry => entry.2.bytes) run.cache.entries := total_put found rfl
  constructor
  case counted => exact ⟨keys ▸ sound.counted.distinct, sound.counted.bytes.trans bytes.symm⟩
  case limit => exact sound.limit
  case entries =>
    have length := congrArg List.length keys
    rw [List.length_map, List.length_map] at length
    exact length.le.trans sound.entries
  case sequence => exact congrArg (· + 1) sound.sequence
  case known =>
    intro stored there
    rcases (Keyed.mem_put sound.counted.distinct).mp there with rfl | ⟨kept, other⟩
    · have known := (sound.known _ (Keyed.mem_of_find found)).hit.delayed order
      rwa [← sound.sequence] at known
    · exact ((sound.known stored kept).delayed order).other (Ne.symm other)

theorem Sound.get (sound : run.Sound maxBytes) (order : run.now ≤ now) :
    (run.perform maxBytes now (.get key responseCacheTtl)).Sound maxBytes := by
  have idle : Sound maxBytes { run with now := now } := sound.shrink (Shrinks.refl _) sound.counted order
  simp only [perform, SubResponseCache.getCached]
  split
  next => exact idle
  next =>
    split
    next => exact idle
    next entry found =>
      split
      next => exact sound.shrink eraseEntry_shrinks sound.counted.eraseEntry order
      next => exact sound.hit found order

theorem roomy_spec (counted : later.Counted) (room : Nat) :
    ∃ roomy, evictUntil room (later.entries.length + 1) later = some roomy ∧ later.Shrinks roomy ∧ roomy.Counted ∧
      roomy.entries.length < kMaxCacheEntries ∧ roomy.bytes ≤ room := by
  obtain ⟨roomy, ended⟩ := evictUntil_ends room (Nat.lt_succ_self later.entries.length)
  have shrinks := evictUntil_keeps later.Shrinks (Shrinks.refl later) (fun kept => kept.trans evictOldest_shrinks) ended
  have kept := evictUntil_keeps Counted counted Counted.evictOldest ended
  have stopped := not_full_of_ended ended
  refine ⟨roomy, ended, shrinks, kept, ?_⟩
  simp only [SubResponseCache.full, Bool.and_eq_false_iff, Bool.or_eq_false_iff, decide_eq_false_iff_not, not_not, not_le, not_lt] at stopped
  rcases stopped with empty | bounds
  · rw [kept.bytes, empty]
    exact ⟨Nat.two_pow_pos 11, Nat.zero_le _⟩
  · exact bounds

theorem accepted_eq_some {result : Option CoalescedResponse} (taken : accepted maxBytes result responseCacheTtl = some response) :
    response.statusCode = 200 ∧ response.noStore = false ∧ coalescedResponseBytes response ≤ maxBytes ∧
      cacheable result responseCacheTtl = some response := by
  obtain ⟨cached, small⟩ := Option.filter_eq_some_iff.mp taken
  obtain ⟨-, fits⟩ := Option.filter_eq_some_iff.mp cached
  simp only [Bool.and_eq_true, decide_eq_true_eq, Bool.not_eq_true'] at fits
  exact ⟨fits.1.2, fits.2, of_decide_eq_true small, cached⟩

theorem Sound.insert (sound : run.Sound maxBytes) (bounded : maxBytes < 2 ^ 64) (order : run.now ≤ now)
    (small : coalescedResponseBytes response ≤ maxBytes) (status : response.statusCode = 200) (storable : response.noStore = false) :
    Sound maxBytes {
      cache := run.cache.store maxBytes key response responseCacheTtl now
      uses := .stored key response now :: run.uses
      now := now } := by
  obtain ⟨roomy, ended, shrinks, counted, length, bytes⟩ :=
    @roomy_spec (run.cache.cleared key now) sound.counted.cleared (maxBytes - coalescedResponseBytes response)
  have whole : run.cache.Shrinks roomy := cleared_shrinks.trans shrinks
  have kept : Sound maxBytes { run with cache := roomy, now := now } := sound.shrink whole counted order
  have absent : key ∉ roomy.entries.map Prod.fst := fun there => key_not_mem_cleared ((shrinks.entries.map Prod.fst).subset there)
  have sum : add64 roomy.bytes (coalescedResponseBytes response) = roomy.bytes + coalescedResponseBytes response :=
    add64_eq (by omega)
  simp only [SubResponseCache.store, if_neg (Nat.not_lt.mpr small), ended, Option.getD_some]
  constructor
  case counted =>
    refine ⟨?_, ?_⟩
    · rw [List.map_append]
      exact counted.distinct.append (List.nodup_singleton key) (by simpa using absent)
    · rw [total_append, ← counted.bytes]
      exact sum
  case limit =>
    dsimp only
    omega
  case entries =>
    rw [List.length_append]
    exact length
  case sequence => exact congrArg (· + 1) kept.sequence
  case known =>
    rw [List.forall_mem_append, List.forall_mem_singleton]
    constructor
    · intro entry there
      have apart : key ≠ entry.1 := fun same => absent (same ▸ List.mem_map_of_mem there)
      exact (kept.known entry there).other apart
    · refine ⟨status, storable, rfl, ?_, Nat.succ_ne_zero _, now, if_pos rfl, le_rfl, ?_⟩
      · rw [List.map_cons, CacheUse.key, lastUse_self, List.length_map]
        exact congrArg (· + 1) kept.sequence
      · have bound : (min responseCacheTtl 5).toNat ≤ 5 := by omega
        exact Nat.add_le_add_left (Nat.mul_le_mul_right _ bound) now

theorem Sound.store {result : Option CoalescedResponse} (sound : run.Sound maxBytes) (bounded : maxBytes < 2 ^ 64)
    (order : run.now ≤ now) : (run.perform maxBytes now (.store key result responseCacheTtl)).Sound maxBytes := by
  simp only [perform]
  cases taken : accepted maxBytes result responseCacheTtl with
  | some response =>
    obtain ⟨status, storable, small, cached⟩ := accepted_eq_some taken
    simp only [storeCached, cached]
    exact sound.insert bounded order small status storable
  | none =>
    cases cached : cacheable result responseCacheTtl with
    | none =>
      simp only [storeCached, cached]
      exact sound.shrink (Shrinks.refl _) sound.counted order
    | some response =>
      have large : maxBytes < coalescedResponseBytes response := by simpa [accepted, cached] using taken
      simp only [storeCached, cached, SubResponseCache.store, if_pos large]
      exact sound.shrink pruneExpired_shrinks sound.counted.pruneExpired order

theorem Sound.step {call : Nat × CacheCall} (sound : run.Sound maxBytes) (bounded : maxBytes < 2 ^ 64)
    (stepped : run.step maxBytes call = some next) : next.Sound maxBytes := by
  rw [CacheRun.step, Option.ite_none_left_eq_some, Option.some.injEq, Nat.not_lt] at stepped
  obtain ⟨order, rfl⟩ := stepped
  cases call.2 with
  | store key result responseCacheTtl => exact sound.store bounded order
  | get key responseCacheTtl => exact sound.get order
  | snapshot => exact sound.shrink pruneExpired_shrinks sound.counted.pruneExpired order

theorem initial_sound : Sound maxBytes {} :=
  ⟨⟨List.nodup_nil, rfl⟩, Nat.zero_le _, Nat.zero_le _, rfl, by simp⟩

end CacheRun

end Steps

section Accounts

namespace CacheRun

open SubResponseCache

variable {maxBytes now room rounds : Nat} {run : CacheRun} {uses : List CacheUse} {key : Text} {responseCacheTtl : Int}
  {response : CoalescedResponse}

theorem Sound.found (sound : run.Sound maxBytes) (order : run.now ≤ now)
    (hit : (run.cache.getCached key responseCacheTtl now).1 = some response) :
    ∃ time, lastStored key run.uses = some (response, time) ∧ time ≤ now ∧ now < time + 5 * ticksPerSecond := by
  unfold getCached at hit
  split at hit
  next => cases hit
  next =>
    split at hit
    next => cases hit
    next entry there =>
      split at hit
      next => cases hit
      next fresh =>
        cases hit
        have known := sound.known _ (Keyed.mem_of_find there)
        obtain ⟨time, stored, before, limit⟩ := known.stored
        dsimp only at limit
        exact ⟨time, stored, before.trans order, by omega⟩

def Dated (uses : List CacheUse) (cache : SubResponseCache) : Prop :=
  ∀ entry ∈ cache.entries, entry.2.sequence = lastUse entry.1 (uses.map CacheUse.key) ∧ entry.2.sequence ≠ 0

theorem Dated.shrink {cache later : SubResponseCache} (dated : Dated uses cache) (shrinks : cache.Shrinks later) :
    Dated uses later :=
  fun entry there => dated entry (shrinks.entries.subset there)

theorem Sound.dated (sound : run.Sound maxBytes) : Dated run.uses run.cache :=
  fun entry there => ⟨(sound.known entry there).sequence, (sound.known entry there).used⟩

theorem Dated.evictOldest {cache : SubResponseCache} (dated : Dated uses cache) (filled : cache.entries ≠ []) :
    ∃ oldest ∈ cache.entries, cache.evictOldest = cache.eraseEntry oldest.1 ∧
      ∀ entry ∈ cache.entries, entry.1 ≠ oldest.1 →
        lastUse oldest.1 (uses.map CacheUse.key) < lastUse entry.1 (uses.map CacheUse.key) := by
  obtain ⟨oldest, there, erased, least⟩ := evictOldest_spec filled
  obtain ⟨date, used⟩ := dated oldest there
  refine ⟨oldest, there, erased, ?_⟩
  intro entry kept different
  have before := least entry kept
  rw [date, (dated entry kept).1] at before
  have apart : lastUse oldest.1 (uses.map CacheUse.key) ≠ lastUse entry.1 (uses.map CacheUse.key) := by
    intro same
    exact different (eq_of_lastUse same (date ▸ used)).symm
  omega

theorem Dated.evicted {cache evicted : SubResponseCache} (dated : Dated uses cache)
    (there : evicted ∈ evictedFrom room rounds cache) :
    ∃ oldest ∈ evicted.entries, evicted.evictOldest = evicted.eraseEntry oldest.1 ∧
      ∀ entry ∈ evicted.entries, entry.1 ≠ oldest.1 →
        lastUse oldest.1 (uses.map CacheUse.key) < lastUse entry.1 (uses.map CacheUse.key) := by
  obtain ⟨kept, filled⟩ := evictedFrom_keeps (Dated uses) dated (fun held => held.shrink evictOldest_shrinks) evicted there
  exact kept.evictOldest filled

theorem Sound.reached {calls : List (Nat × CacheCall)} (bounded : maxBytes < 2 ^ 64)
    (ran : runSteps (CacheRun.step maxBytes) {} calls = some run) : run.Sound maxBytes := by
  apply runSteps_keeps _ initial_sound ran
  exact fun sound stepped => sound.step bounded stepped

theorem uses_step {call : Nat × CacheCall} {next : CacheRun} (stepped : step maxBytes run call = some next) :
    next.uses.length ≤ run.uses.length + 1 := by
  rw [step, Option.ite_none_left_eq_some, Option.some_inj] at stepped
  obtain ⟨-, rfl⟩ := stepped
  have one : ∀ use : Option CacheUse, (use.toList ++ run.uses).length ≤ run.uses.length + 1 := by
    rintro (_ | use) <;> simp
  cases call.2 with
  | store | get => exact one _
  | snapshot => exact Nat.le_succ _

end CacheRun

theorem SubResponseCache.accounts (configured : Text) (calls : List (Nat × CacheCall)) (run : CacheRun)
    (ran : runSteps (CacheRun.step (subResponseCacheMaxBytes configured)) {} calls = some run) :
    run.cache.bytes = total (fun entry => coalescedResponseBytes entry.2.result) run.cache.entries ∧
      run.cache.bytes = total (fun entry => entry.2.bytes) run.cache.entries ∧
      run.cache.bytes ≤ subResponseCacheMaxBytes configured ∧
      run.cache.entries.length ≤ kMaxCacheEntries ∧
      run.cache.sequence ≤ calls.length ∧
      (∀ entry ∈ run.cache.entries, entry.2.result.statusCode = 200 ∧ entry.2.result.noStore = false) ∧
      (∀ now key responseCacheTtl response, run.now ≤ now →
        (run.cache.getCached key responseCacheTtl now).1 = some response →
        ∃ time, lastStored key run.uses = some (response, time) ∧ time ≤ now ∧ now < time + 5 * ticksPerSecond) ∧
      ∀ now key room,
        (∃ roomy, evictUntil room ((run.cache.cleared key now).entries.length + 1) (run.cache.cleared key now) = some roomy) ∧
        ∀ rounds, ∀ evicted ∈ evictedFrom room rounds (run.cache.cleared key now),
          ∃ oldest ∈ evicted.entries, evicted.evictOldest = evicted.eraseEntry oldest.1 ∧
            ∀ entry ∈ evicted.entries, entry.1 ≠ oldest.1 →
              lastUse oldest.1 (run.uses.map CacheUse.key) < lastUse entry.1 (run.uses.map CacheUse.key) := by
  have small := subResponseCacheMaxBytes_le configured
  have sound : run.Sound (subResponseCacheMaxBytes configured) := .reached (by omega) ran
  have exact_sizes : total (fun entry => entry.2.bytes) run.cache.entries =
      total (fun entry => coalescedResponseBytes entry.2.result) run.cache.entries :=
    total_congr fun entry there => (sound.known entry there).bytes
  refine ⟨sound.counted.bytes.trans exact_sizes, sound.counted.bytes, sound.limit, sound.entries, ?_, ?_, ?_, ?_⟩
  · rw [sound.sequence, ← Nat.zero_add calls.length]
    exact runSteps_length (fun run : CacheRun => run.uses.length) CacheRun.uses_step ran
  · exact fun entry there => ⟨(sound.known entry there).status, (sound.known entry there).storable⟩
  · exact fun now key responseCacheTtl response order hit => sound.found order hit
  · intro now key room
    constructor
    · exact evictUntil_ends room (Nat.lt_succ_self _)
    · exact fun rounds evicted there => (sound.dated.shrink cleared_shrinks).evicted there

def block (size : Nat) : CoalescedResponse := { body := some (List.replicate size 'x') }

def storedAndFound : List (Nat × CacheCall) :=
  [(0, .store (chars "a") (some (block 500)) 300), (1, .store (chars "b") (some (block 500)) 300),
    (2, .get (chars "a") 300), (ticksPerSecond, .store (chars "c") (some (block 400)) 1)]

-- The third response takes the place of the second one, which nobody asked for.
def storedTwo : CacheRun where
  cache := {
    entries := [(chars "a", ⟨block 500, 5 * ticksPerSecond, 500, 3⟩), (chars "c", ⟨block 400, 2 * ticksPerSecond, 400, 4⟩)]
    bytes := 900
    sequence := 4 }
  uses := [.stored (chars "c") (block 400) ticksPerSecond, .found (chars "a"), .stored (chars "b") (block 500) 1,
    .stored (chars "a") (block 500) 0]
  now := ticksPerSecond

theorem SubResponseCache.accounts_evicted :
    storedTwo.cache.bytes = total (fun entry => coalescedResponseBytes entry.2.result) storedTwo.cache.entries ∧
      storedTwo.cache.bytes ≤ 1024 ∧ storedTwo.cache.entries.length ≤ kMaxCacheEntries := by
  have ran : runSteps (CacheRun.step (subResponseCacheMaxBytes (chars "1024"))) {} storedAndFound = some storedTwo := by
    decide +kernel
  have accounts := SubResponseCache.accounts (chars "1024") storedAndFound storedTwo ran
  have limit : subResponseCacheMaxBytes (chars "1024") = 1024 := by decide +kernel
  exact ⟨accounts.1, limit ▸ accounts.2.2.1, accounts.2.2.2.1⟩

end Accounts

end SubConverter.Handler
