import Mathlib.Data.List.AList
import SubConverter.Lib.Interleaving

set_option autoImplicit false

namespace SubConverter.Utils

structure LruNode (Key : Type) where
  id : Nat
  key : Key
deriving DecidableEq, Repr

structure LruEntry (Value : Type) where
  value : Value
  bytes : Nat
  lru : Nat
deriving DecidableEq, Repr

/-- What the cache keeps under its mutex, apart from the computations in flight. -/
structure LruStore (Key Value : Type) where
  maxEntries : Nat
  maxBytes : Nat
  -- The most recently used key comes first.
  lru : List (LruNode Key) := []
  entries : AList fun _ : Key => LruEntry Value := ∅
  bytes : Nat := 0
  nextNode : Nat := 0

namespace LruStore

variable {Key Value : Type}

section Operations

variable [DecidableEq Key] (store : LruStore Key Value)

def unlink (lru : List (LruNode Key)) (id : Nat) : List (LruNode Key) := lru.eraseP fun node => node.id = id

def touch (entry : LruEntry Value) : LruStore Key Value :=
  match store.lru.find? fun node => node.id = entry.lru with
  | some node => { store with lru := node :: unlink store.lru entry.lru }
  | none => store

def removeExisting (key : Key) : LruStore Key Value :=
  match store.entries.lookup key with
  | none => store
  | some existing => { store with
      bytes := sub64 store.bytes existing.bytes
      lru := unlink store.lru existing.lru
      entries := store.entries.erase key }

def pushFront (key : Key) (value : Value) (bytes : Nat) : LruStore Key Value := { store with
  lru := ⟨store.nextNode, key⟩ :: store.lru
  entries := store.entries.insert key ⟨value, bytes, store.nextNode⟩
  bytes := add64 store.bytes bytes
  nextNode := store.nextNode + 1 }

def overLimit : Bool :=
  !store.entries.entries.isEmpty &&
    (store.maxEntries < store.entries.entries.length || store.maxBytes < store.bytes)

def evictKey (key : Key) : LruStore Key Value :=
  match store.entries.lookup key with
  | none => store
  | some evicted => { store with bytes := sub64 store.bytes evicted.bytes, entries := store.entries.erase key }

-- Each round pops one node, so the length of the list is enough fuel.
def evict : Nat → LruStore Key Value → LruStore Key Value
  | 0, store => store
  | fuel + 1, store =>
    if store.overLimit then
      match store.lru.getLast? with
      | none => store
      | some node => evict fuel { store.evictKey node.key with lru := store.lru.dropLast }
    else store

def insert (key : Key) (value : Value) (bytes : Nat) : LruStore Key Value :=
  let pushed := (store.removeExisting key).pushFront key value bytes
  evict pushed.lru.length pushed

def clear : LruStore Key Value := { store with entries := ∅, lru := [], bytes := 0 }

end Operations

section Linking

variable [DecidableEq Key] {store : LruStore Key Value} {key : Key} {entry : LruEntry Value} {node : LruNode Key}
  {lru : List (LruNode Key)} {entries : AList fun _ : Key => LruEntry Value}

def sizes (entries : AList fun _ : Key => LruEntry Value) : Nat := total (fun entry => entry.2.bytes) entries.entries

theorem entries_perm (found : entries.lookup key = some entry) :
    entries.entries.Perm (⟨key, entry⟩ :: (entries.erase key).entries) := by
  have present : key ∈ entries.entries.keys := AList.lookup_isSome.mp (by simp [found])
  obtain ⟨kept, before, after, apart, whole, erased⟩ := List.exists_of_kerase present
  have same : kept = entry := by
    have member : (⟨key, kept⟩ : Sigma fun _ : Key => LruEntry Value) ∈ entries.entries := by simp [whole]
    have lookup : entries.lookup key = some kept := AList.mem_lookup_iff.mpr member
    exact Option.some.inj (lookup.symm.trans found)
  subst same
  have rest : (entries.erase key).entries = before ++ after := erased
  rw [rest, whole]
  exact List.perm_middle

theorem sizes_erase (found : entries.lookup key = some entry) : sizes entries = entry.bytes + sizes (entries.erase key) := by
  rw [sizes, total_perm (entries_perm found), total_cons]
  rfl

structure Linked (store : LruStore Key Value) : Prop where
  links : (store.lru.map fun node => (node.key, node.id)).Perm
    (store.entries.entries.map fun entry => (entry.1, entry.2.lru))
  ids : (store.lru.map LruNode.id).Nodup
  older : ∀ node ∈ store.lru, node.id < store.nextNode

theorem Linked.entry_of_node (linked : store.Linked) (member : node ∈ store.lru) :
    ∃ entry, store.entries.lookup node.key = some entry ∧ entry.lru = node.id := by
  have listed : (node.key, node.id) ∈ store.entries.entries.map fun entry => (entry.1, entry.2.lru) :=
    linked.links.subset (List.mem_map.mpr ⟨node, member, rfl⟩)
  obtain ⟨⟨key, entry⟩, there, same⟩ := List.mem_map.mp listed
  obtain ⟨rfl, id⟩ := Prod.mk.inj same
  exact ⟨entry, AList.mem_lookup_iff.mpr there, id⟩

theorem Linked.node_of_entry (linked : store.Linked) (found : store.entries.lookup key = some entry) :
    ⟨entry.lru, key⟩ ∈ store.lru := by
  have there : (⟨key, entry⟩ : Sigma fun _ : Key => LruEntry Value) ∈ store.entries.entries := AList.mem_lookup_iff.mp found
  have listed : (key, entry.lru) ∈ store.lru.map fun node => (node.key, node.id) :=
    linked.links.symm.subset (List.mem_map.mpr ⟨_, there, rfl⟩)
  obtain ⟨⟨id, key'⟩, member, same⟩ := List.mem_map.mp listed
  obtain ⟨rfl, rfl⟩ := Prod.mk.inj same
  exact member

omit [DecidableEq Key] in
theorem unlink_perm (ids : (lru.map LruNode.id).Nodup) (member : node ∈ lru) : lru.Perm (node :: unlink lru node.id) := by
  obtain ⟨found, before, after, -, same, whole, erased⟩ :=
    List.exists_of_eraseP (p := fun other : LruNode Key => decide (other.id = node.id)) member (by simp)
  have there : found ∈ lru := by simp [whole]
  obtain rfl : found = node := List.inj_on_of_nodup_map ids there member (by simpa using same)
  rw [unlink, erased, whole]
  exact List.perm_middle

theorem Linked.remove (linked : store.Linked) (found : store.entries.lookup key = some entry)
    (removed : store.lru.Perm (⟨entry.lru, key⟩ :: lru)) (bytes : Nat) :
    Linked { store with lru := lru, entries := store.entries.erase key, bytes := bytes } := by
  have nodes := removed.map fun node => (node.key, node.id)
  have entries := (entries_perm found).map fun entry => (entry.1, entry.2.lru)
  have ids := (removed.map LruNode.id).nodup_iff.mp linked.ids
  constructor
  · exact (List.perm_cons _).mp (nodes.symm.trans (linked.links.trans entries))
  · exact (List.nodup_cons.mp ids).2
  · intro node member
    exact linked.older node (removed.symm.subset (List.mem_cons_of_mem _ member))

omit [DecidableEq Key] in
theorem Linked.touch (linked : store.Linked) (entry : LruEntry Value) : (store.touch entry).Linked := by
  unfold LruStore.touch
  split
  next node found =>
    have id : node.id = entry.lru := by simpa using List.find?_some found
    have moved := unlink_perm linked.ids (List.mem_of_find?_eq_some found)
    rw [id] at moved
    constructor
    · exact ((moved.map _).symm).trans linked.links
    · exact (moved.map LruNode.id).nodup_iff.mp linked.ids
    · intro other member
      exact linked.older other (moved.symm.subset member)
  · exact linked

theorem Linked.removeExisting (linked : store.Linked) (key : Key) : (store.removeExisting key).Linked := by
  unfold LruStore.removeExisting
  split
  · exact linked
  next existing found => exact linked.remove found (unlink_perm linked.ids (linked.node_of_entry found)) _

theorem Linked.pushFront (linked : store.Linked) (absent : key ∉ store.entries) (value : Value) (bytes : Nat) :
    (store.pushFront key value bytes).Linked := by
  constructor
  · have listed : (store.pushFront key value bytes).entries.entries = ⟨key, value, bytes, store.nextNode⟩ :: store.entries.entries :=
      AList.entries_insert_of_notMem absent
    rw [listed]
    exact linked.links.cons _
  · have fresh : store.nextNode ∉ store.lru.map LruNode.id := by
      intro there
      obtain ⟨node, member, same⟩ := List.mem_map.mp there
      exact Nat.lt_irrefl _ (same ▸ linked.older node member)
    simpa [LruStore.pushFront] using ⟨by simpa using fresh, linked.ids⟩
  · intro node member
    rcases List.mem_cons.mp member with rfl | member
    · exact Nat.lt_succ_self _
    · exact Nat.lt_succ_of_lt (linked.older node member)

omit [DecidableEq Key] in
theorem clear_linked : store.clear.Linked := by
  constructor <;> simp [LruStore.clear]

end Linking

section Limits

variable [DecidableEq Key] {store later : LruStore Key Value} {key : Key} {entry : LruEntry Value}

structure Sound (store : LruStore Key Value) : Prop where
  linked : store.Linked
  bytes : store.bytes = sizes store.entries
  entryLimit : store.entries.entries.length ≤ store.maxEntries
  byteLimit : store.bytes ≤ store.maxBytes

structure Counted (store : LruStore Key Value) : Prop where
  linked : store.Linked
  bytes : store.bytes = sizes store.entries % 2 ^ 64
  each : ∀ entry ∈ store.entries.entries, entry.2.bytes ≤ store.maxBytes
  sum : sizes store.entries ≤ 2 * store.maxBytes

def Limits (maxEntries maxBytes : Nat) : Prop := maxBytes < 2 ^ 63 ∨ (maxEntries ≤ 1 ∧ maxBytes < 2 ^ 64)

theorem sub64_mod (bytes rest : Nat) : sub64 ((bytes + rest) % 2 ^ 64) bytes = rest % 2 ^ 64 := by
  unfold sub64
  omega

theorem add64_mod (bytes rest : Nat) : add64 (rest % 2 ^ 64) bytes = (bytes + rest) % 2 ^ 64 := by
  unfold add64
  omega

omit [DecidableEq Key] in
theorem Sound.each (sound : store.Sound) : ∀ entry ∈ store.entries.entries, entry.2.bytes ≤ store.maxBytes := by
  intro entry member
  obtain ⟨index, there⟩ := List.mem_iff_getElem?.mp member
  have counted : entry.2.bytes ≤ sizes store.entries := @le_total _ _ _ _ (fun entry => entry.2.bytes) there
  have limit := sound.byteLimit
  have bytes := sound.bytes
  omega

theorem mem_of_mem_erase {found : Sigma fun _ : Key => LruEntry Value} (member : found ∈ (store.entries.erase key).entries) :
    found ∈ store.entries.entries :=
  (List.kerase_sublist key store.entries.entries).subset member

theorem Counted.evictLast (counted : store.Counted) {node : LruNode Key} (last : store.lru.getLast? = some node) :
    Counted { store.evictKey node.key with lru := store.lru.dropLast } := by
  obtain ⟨before, whole⟩ := List.getLast?_eq_some_iff.mp last
  obtain ⟨entry, found, id⟩ := counted.linked.entry_of_node (List.mem_of_getLast? last)
  have rest : store.lru.dropLast = before := by simp [whole]
  have removed : store.lru.Perm (⟨entry.lru, node.key⟩ :: before) := by
    rw [id, whole]
    exact List.perm_append_comm
  have moved := sizes_erase found
  have sum := counted.sum
  rw [rest]
  simp only [evictKey, found]
  constructor
  · exact counted.linked.remove found removed _
  · rw [counted.bytes, moved]
    exact sub64_mod _ _
  · intro other member
    exact counted.each other (mem_of_mem_erase member)
  · dsimp only
    omega

structure Evicted (store later : LruStore Key Value) : Prop where
  counted : later.Counted
  maxEntries : later.maxEntries = store.maxEntries
  maxBytes : later.maxBytes = store.maxBytes
  done : later.overLimit = false

theorem evictKey_limits : (store.evictKey key).maxEntries = store.maxEntries ∧ (store.evictKey key).maxBytes = store.maxBytes := by
  unfold evictKey
  split <;> exact ⟨rfl, rfl⟩

theorem Counted.evict (counted : store.Counted) {fuel : Nat} (enough : store.lru.length ≤ fuel) :
    store.Evicted (evict fuel store) := by
  induction fuel generalizing store with
  | zero =>
    have empty : store.lru = [] := List.length_eq_zero_iff.mp (Nat.le_zero.mp enough)
    have none : store.entries.entries = [] := by simpa [empty] using counted.linked.links
    exact ⟨counted, rfl, rfl, by simp [LruStore.evict, overLimit, none]⟩
  | succ fuel ih =>
    simp only [LruStore.evict]
    split
    next above =>
      split
      next empty =>
        have none : store.entries.entries = [] := by
          simpa [List.getLast?_eq_none_iff.mp empty] using counted.linked.links
        simp [overLimit, none] at above
      next node last =>
        obtain ⟨sameEntries, sameBytes⟩ := @evictKey_limits _ _ _ store node.key
        have shorter : store.lru.dropLast.length ≤ fuel := by
          rw [List.length_dropLast]
          omega
        have evicted := ih (counted.evictLast last) shorter
        exact ⟨evicted.counted, evicted.maxEntries.trans sameEntries, evicted.maxBytes.trans sameBytes, evicted.done⟩
    next within => exact ⟨counted, rfl, rfl, by simpa using within⟩

omit [DecidableEq Key] in
theorem Evicted.sound (evicted : store.Evicted later) (limits : Limits store.maxEntries store.maxBytes) : later.Sound := by
  obtain ⟨⟨linked, bytes, each, sum⟩, sameEntries, sameBytes, done⟩ := evicted
  rw [← sameEntries, ← sameBytes] at limits
  cases listed : later.entries.entries with
  | nil =>
    have none : sizes later.entries = 0 := by simp [sizes, listed]
    exact ⟨linked, by simp [bytes, none], by simp [listed], by simp [bytes, none]⟩
  | cons first rest =>
    have within : later.entries.entries.length ≤ later.maxEntries ∧ later.bytes ≤ later.maxBytes := by
      simpa [overLimit, listed] using done
    have exact : later.bytes = sizes later.entries := by
      rcases limits with small | ⟨one, fits⟩
      · rw [bytes]
        exact Nat.mod_eq_of_lt (by omega)
      · have alone : rest = [] := by
          have short := within.1
          rw [listed, List.length_cons] at short
          exact List.length_eq_zero_iff.mp (by omega)
        have single : sizes later.entries = first.2.bytes := by simp [sizes, listed, alone]
        have small := each first (by simp [listed])
        rw [bytes]
        exact Nat.mod_eq_of_lt (by omega)
    exact ⟨linked, exact, within.1, within.2⟩

structure Kept (store later : LruStore Key Value) : Prop where
  sound : later.Sound
  maxEntries : later.maxEntries = store.maxEntries
  maxBytes : later.maxBytes = store.maxBytes

omit [DecidableEq Key] in
theorem Sound.touch (sound : store.Sound) (entry : LruEntry Value) : store.Kept (store.touch entry) := by
  have linked := sound.linked.touch entry
  obtain ⟨-, bytes, entryLimit, byteLimit⟩ := sound
  unfold LruStore.touch at linked ⊢
  split at linked <;> exact ⟨⟨linked, bytes, entryLimit, byteLimit⟩, rfl, rfl⟩

omit [DecidableEq Key] in
theorem Sound.counted (sound : store.Sound) (limits : Limits store.maxEntries store.maxBytes) : store.Counted := by
  obtain ⟨linked, bytes, entryLimit, byteLimit⟩ := sound
  have fits : store.maxBytes < 2 ^ 64 := limits.elim (fun small => by omega) And.right
  exact ⟨linked, by omega, Sound.each ⟨linked, bytes, entryLimit, byteLimit⟩, by omega⟩

theorem removeExisting_limits (key : Key) :
    (store.removeExisting key).maxEntries = store.maxEntries ∧ (store.removeExisting key).maxBytes = store.maxBytes := by
  unfold removeExisting
  split <;> exact ⟨rfl, rfl⟩

theorem removeExisting_entries (key : Key) : (store.removeExisting key).entries = store.entries.erase key := by
  unfold removeExisting
  split
  next absent =>
    apply AList.ext
    exact (List.kerase_of_notMem_keys (AList.lookup_eq_none.mp absent)).symm
  next => rfl

theorem sizes_erase_le (key : Key) : sizes (store.entries.erase key) ≤ sizes store.entries := by
  cases found : store.entries.lookup key with
  | none =>
    have same : (store.entries.erase key).entries = store.entries.entries :=
      List.kerase_of_notMem_keys (AList.lookup_eq_none.mp found)
    simp [sizes, same]
  | some entry =>
    rw [sizes_erase found]
    exact Nat.le_add_left _ _

theorem Counted.removeExisting (counted : store.Counted) (key : Key) : (store.removeExisting key).Counted := by
  obtain ⟨-, sameBytes⟩ := @removeExisting_limits _ _ _ store key
  have fewer := @sizes_erase_le _ _ _ store key
  have sum := counted.sum
  constructor
  · exact counted.linked.removeExisting key
  · rw [removeExisting_entries]
    unfold LruStore.removeExisting
    split
    next absent =>
      have same : store.entries.erase key = store.entries :=
        AList.ext (List.kerase_of_notMem_keys (AList.lookup_eq_none.mp absent))
      rw [same]
      exact counted.bytes
    next existing found =>
      dsimp only
      rw [counted.bytes, sizes_erase found]
      exact sub64_mod _ _
  · rw [removeExisting_entries, sameBytes]
    intro entry member
    exact counted.each entry (mem_of_mem_erase member)
  · rw [removeExisting_entries, sameBytes]
    omega

theorem Counted.pushFront (counted : store.Counted) (absent : key ∉ store.entries) {bytes : Nat}
    (fits : bytes ≤ store.maxBytes) (room : sizes store.entries ≤ store.maxBytes) (value : Value) :
    (store.pushFront key value bytes).Counted := by
  have listed : (store.pushFront key value bytes).entries.entries = ⟨key, value, bytes, store.nextNode⟩ :: store.entries.entries :=
    AList.entries_insert_of_notMem absent
  have moved : sizes (store.pushFront key value bytes).entries = bytes + sizes store.entries := by
    simp [sizes, listed]
  constructor
  · exact counted.linked.pushFront absent value bytes
  · rw [moved, ← add64_mod, ← counted.bytes]
    rfl
  · rw [listed]
    intro entry member
    rcases List.mem_cons.mp member with rfl | member
    · exact fits
    · exact counted.each entry member
  · rw [moved]
    have same : (store.pushFront key value bytes).maxBytes = store.maxBytes := rfl
    omega

theorem Sound.insert (sound : store.Sound) (limits : Limits store.maxEntries store.maxBytes) {bytes : Nat}
    (fits : bytes ≤ store.maxBytes) (key : Key) (value : Value) : store.Kept (store.insert key value bytes) := by
  obtain ⟨sameEntries, sameBytes⟩ := @removeExisting_limits _ _ _ store key
  have absent : key ∉ (store.removeExisting key).entries := by
    rw [removeExisting_entries, AList.mem_erase]
    exact fun present => present.1 rfl
  have room : sizes (store.removeExisting key).entries ≤ (store.removeExisting key).maxBytes := by
    rw [removeExisting_entries, sameBytes]
    exact (sizes_erase_le key).trans (sound.bytes ▸ sound.byteLimit)
  have counted := ((sound.counted limits).removeExisting key).pushFront absent (sameBytes ▸ fits) room value
  have evicted := counted.evict (Nat.le_refl _)
  rw [← sameEntries, ← sameBytes] at limits
  exact ⟨evicted.sound limits, evicted.maxEntries.trans sameEntries, evicted.maxBytes.trans sameBytes⟩

omit [DecidableEq Key] in
theorem clear_kept : store.Kept store.clear := ⟨⟨clear_linked, rfl, Nat.zero_le _, Nat.zero_le _⟩, rfl, rfl⟩

omit [DecidableEq Key] in
theorem Linked.keys (linked : store.Linked) : (store.lru.map LruNode.key).Perm store.entries.keys := by
  have firsts := linked.links.map Prod.fst
  simpa [AList.keys, List.keys, Function.comp_def] using firsts

end Limits

end LruStore

end SubConverter.Utils
