import SubConverter.Generator.NodeMatch
import SubConverter.Lib.Stripped

set_option autoImplicit false

namespace SubConverter.Generator.NodeMatch

open Handler (startsWith)
open SubConverter.Utils (Jpcre2 regFind)
open SubConverter.Parser (Proxy)

section Filters

variable (engine : Jpcre2) {ρ : Type}

def ruleApplies (node : Proxy ρ) (rule : Text) : Bool :=
  let (matched, realRule) := applyMatcher engine rule node
  if matched then if realRule = [] then true else regFind engine node.remark realRule else false

def chkIgnore (node : Proxy ρ) (excludeRemarks includeRemarks : List Text) : Bool :=
  let excluded := excludeRemarks.any (ruleApplies engine node)
  let included := if includeRemarks ≠ [] then includeRemarks.any (ruleApplies engine node) else true
  excluded || !included

def asWord (n : Int) : UInt32 := UInt32.ofBitVec (BitVec.ofInt 32 n)

structure Compaction (ρ : Type) where
  nodes : List (Proxy ρ)
  writeIter : Nat := 0
  nodeIndex : Nat := 0

def assigned (groupID : Int) (nodeIndex : Nat) (node : Proxy ρ) : Proxy ρ :=
  { node with id := UInt32.ofNat nodeIndex, groupId := asWord groupID }

-- A node that is moved is not read again, so what is left of it does not matter.
def filterStep (excludeRemarks includeRemarks : List Text) (groupID : Int) (state : Compaction ρ) (iter : Nat) : Compaction ρ :=
  match state.nodes[iter]? with
  | none => state
  | some node =>
    if chkIgnore engine node excludeRemarks includeRemarks then state
    else
      let nodes := state.nodes.set iter (assigned groupID state.nodeIndex node)
      { nodes := if state.writeIter ≠ iter then nodes.set state.writeIter (assigned groupID state.nodeIndex node) else nodes
        writeIter := state.writeIter + 1, nodeIndex := state.nodeIndex + 1 }

def filterNodes (nodes : List (Proxy ρ)) (excludeRemarks includeRemarks : List Text) (groupID : Int) : List (Proxy ρ) :=
  let final := (List.range nodes.length).foldl (filterStep engine excludeRemarks includeRemarks groupID) { nodes := nodes }
  final.nodes.take final.writeIter

variable {engine} {excludeRemarks includeRemarks : List Text} {groupID : Int} {nodes : List (Proxy ρ)}

structure Compacted (engine : Jpcre2) (excludeRemarks includeRemarks : List Text) (groupID : Int) (nodes : List (Proxy ρ))
    (iter : Nat) (state : Compaction ρ) : Prop where
  front : state.nodes.take state.writeIter =
    ((nodes.take iter).filter fun node => !chkIgnore engine node excludeRemarks includeRemarks).mapIdx (assigned groupID)
  count : state.writeIter = ((nodes.take iter).filter fun node => !chkIgnore engine node excludeRemarks includeRemarks).length
  index : state.nodeIndex = state.writeIter
  unread : state.nodes.drop iter = nodes.drop iter
  length : state.nodes.length = nodes.length

theorem take_set_append {α : Type} {l : List α} {place : Nat} (inside : place < l.length) (a : α) :
    (l.set place a).take (place + 1) = l.take place ++ [a] := by
  rw [List.take_add_one, List.take_set_of_le (le_refl place), List.getElem?_set_self inside]
  rfl

theorem Compacted.step {iter : Nat} {state : Compaction ρ} (inside : iter < nodes.length)
    (compacted : Compacted engine excludeRemarks includeRemarks groupID nodes iter state) :
    Compacted engine excludeRemarks includeRemarks groupID nodes (iter + 1)
      (filterStep engine excludeRemarks includeRemarks groupID state iter) := by
  obtain ⟨front, count, index, unread, length⟩ := compacted
  have here : state.nodes[iter]? = some nodes[iter] := by
    have first := congrArg (fun rest : List (Proxy ρ) => rest[0]?) unread
    simpa [inside] using first
  have behind : state.nodes.drop (iter + 1) = nodes.drop (iter + 1) := by
    have rest := congrArg List.tail unread
    simpa using rest
  have longer : nodes.take (iter + 1) = nodes.take iter ++ [nodes[iter]] := by
    rw [List.take_add_one, List.getElem?_eq_getElem inside]
    rfl
  have behindRead : state.writeIter ≤ iter := by
    rw [count]
    exact (List.length_filter_le _ _).trans (List.length_take_le _ _)
  rw [filterStep, here]
  cases ignored : chkIgnore engine nodes[iter] excludeRemarks includeRemarks with
  | true =>
    have same : ((nodes.take (iter + 1)).filter fun node => !chkIgnore engine node excludeRemarks includeRemarks) =
        (nodes.take iter).filter fun node => !chkIgnore engine node excludeRemarks includeRemarks := by
      rw [longer, List.filter_append, List.filter_cons_of_neg (by simp [ignored]), List.filter_nil, List.append_nil]
    simp only [ignored, if_true]
    exact ⟨by rw [front, same], by rw [count, same], index, behind, length⟩
  | false =>
    have more : ((nodes.take (iter + 1)).filter fun node => !chkIgnore engine node excludeRemarks includeRemarks) =
        ((nodes.take iter).filter fun node => !chkIgnore engine node excludeRemarks includeRemarks) ++ [nodes[iter]] := by
      rw [longer, List.filter_append, List.filter_cons_of_pos (by simp [ignored]), List.filter_nil]
    have written (a : Proxy ρ) : (if state.writeIter ≠ iter then (state.nodes.set iter a).set state.writeIter a
        else state.nodes.set iter a) = (state.nodes.set iter a).set state.writeIter a := by
      by_cases moved : state.writeIter ≠ iter
      · rw [if_pos moved]
      · rw [if_neg moved, not_not.mp moved, List.set_set]
    simp only [ignored, Bool.false_eq_true, if_false, written]
    refine ⟨?_, by rw [more, List.length_append, ← count]; rfl, by rw [index], ?_, by simpa using length⟩
    · have room : state.writeIter < (state.nodes.set iter (assigned groupID state.nodeIndex nodes[iter])).length := by
        rw [List.length_set, length]
        omega
      rw [take_set_append room, List.take_set_of_le behindRead, front, more, List.mapIdx_concat, index, count]
    · rw [List.drop_set_of_lt (by omega), List.drop_set_of_lt (by omega), behind]

theorem filterNodes_eq (nodes : List (Proxy ρ)) (excludeRemarks includeRemarks : List Text) (groupID : Int) :
    filterNodes engine nodes excludeRemarks includeRemarks groupID =
      (nodes.filter fun node => !chkIgnore engine node excludeRemarks includeRemarks).mapIdx (assigned groupID) := by
  have run : ∀ iter ≤ nodes.length, Compacted engine excludeRemarks includeRemarks groupID nodes iter
      ((List.range iter).foldl (filterStep engine excludeRemarks includeRemarks groupID) { nodes := nodes }) := by
    intro iter
    induction iter with
    | zero => exact fun _ => ⟨rfl, rfl, rfl, rfl, rfl⟩
    | succ iter ih =>
      intro within
      rw [List.range_succ, List.foldl_append]
      exact (ih (by omega)).step within
  have final := (run nodes.length le_rfl).front
  rwa [List.take_length] at final

variable (engine excludeRemarks includeRemarks groupID) in
def ignoredAfter (node : Proxy ρ) : Bool :=
  chkIgnore engine { node with groupId := asWord groupID } excludeRemarks includeRemarks

theorem ignoredAfter_assigned (nodeIndex : Nat) (node : Proxy ρ) :
    ignoredAfter engine excludeRemarks includeRemarks groupID (assigned groupID nodeIndex node) =
      ignoredAfter engine excludeRemarks includeRemarks groupID node := rfl

variable (groupID) in
theorem mem_of_mapIdx_eq {left right : List (Proxy ρ)} (same : left.mapIdx (assigned groupID) = right.mapIdx (assigned groupID))
    {node : Proxy ρ} (there : node ∈ left) : ∃ other ∈ right, ∃ i j, assigned groupID i node = assigned groupID j other := by
  obtain ⟨i, inside, rfl⟩ := List.mem_iff_getElem.mp there
  have written : assigned groupID i left[i] ∈ left.mapIdx (assigned groupID) :=
    List.mem_mapIdx.mpr ⟨i, inside, rfl⟩
  rw [same] at written
  obtain ⟨j, within, equal⟩ := List.mem_mapIdx.mp written
  exact ⟨right[j], List.getElem_mem within, i, j, equal.symm⟩

theorem filter_eq_of_length {α : Type} {l : List α} {narrow wide : α → Bool} (within : ∀ x ∈ l, narrow x → wide x)
    (same : (l.filter narrow).length = (l.filter wide).length) : ∀ x ∈ l, narrow x = wide x := by
  have twice : l.filter narrow = (l.filter wide).filter narrow := by
    rw [List.filter_filter]
    refine List.filter_congr fun x there => ?_
    cases kept : narrow x with
    | false => rfl
    | true => rw [within x there kept, Bool.and_true]
  have sub : (l.filter narrow).Sublist (l.filter wide) := by
    rw [twice]
    exact List.filter_sublist
  have equal := sub.eq_of_length same
  intro x there
  cases kept : wide x with
  | false => exact Bool.eq_false_iff.mpr fun also => by simp [within x there also] at kept
  | true =>
    have inside : x ∈ l.filter narrow := equal ▸ List.mem_filter.mpr ⟨there, kept⟩
    exact (List.mem_filter.mp inside).2

theorem filterNodes_agrees_iff (nodes : List (Proxy ρ)) :
    filterNodes engine nodes excludeRemarks includeRemarks groupID =
        (nodes.filter fun node => !ignoredAfter engine excludeRemarks includeRemarks groupID node).mapIdx (assigned groupID) ↔
      ∀ node ∈ nodes, chkIgnore engine node excludeRemarks includeRemarks =
        ignoredAfter engine excludeRemarks includeRemarks groupID node := by
  rw [filterNodes_eq]
  constructor
  · intro same
    have lengths := congrArg List.length same
    rw [List.length_mapIdx, List.length_mapIdx] at lengths
    have verdicts := filter_eq_of_length ?_ lengths
    · intro node there
      simpa using verdicts node there
    · intro node there kept
      obtain ⟨other, inside, i, j, equal⟩ := mem_of_mapIdx_eq groupID same (List.mem_filter.mpr ⟨there, kept⟩)
      have verdict := (List.mem_filter.mp inside).2
      rwa [← ignoredAfter_assigned j other, ← equal, ignoredAfter_assigned] at verdict
  · intro agree
    have filtered : (nodes.filter fun node => !chkIgnore engine node excludeRemarks includeRemarks) =
        nodes.filter fun node => !ignoredAfter engine excludeRemarks includeRemarks groupID node :=
      List.filter_congr fun node there => by rw [agree node there]
    rw [filtered]

def readsGroupId (rule : Text) : Bool := startsWith rule (chars "!!GROUPID=") || startsWith rule (chars "!!INSERT=")

theorem applyMatcher_of_not_readsGroupId {rule : Text} (other : readsGroupId rule = false) (node : Proxy ρ) (groupId : UInt32) :
    applyMatcher engine rule { node with groupId := groupId } = applyMatcher engine rule node := by
  have absent : ¬(startsWith rule (chars "!!GROUPID=") || startsWith rule (chars "!!INSERT=")) = true := by
    rw [readsGroupId] at other
    rw [other]
    exact Bool.false_ne_true
  unfold applyMatcher
  simp only [if_neg absent]

theorem ruleApplies_of_not_readsGroupId {rule : Text} (other : readsGroupId rule = false) (node : Proxy ρ) (groupId : UInt32) :
    ruleApplies engine { node with groupId := groupId } rule = ruleApplies engine node rule := by
  unfold ruleApplies
  simp only [applyMatcher_of_not_readsGroupId other node groupId]

theorem any_of_not_readsGroupId {rules : List Text} (others : ∀ rule ∈ rules, readsGroupId rule = false) (node : Proxy ρ)
    (groupId : UInt32) :
    rules.any (ruleApplies engine { node with groupId := groupId }) = rules.any (ruleApplies engine node) := by
  induction rules with
  | nil => rw [List.any_nil, List.any_nil]
  | cons rule rest ih =>
    obtain ⟨here, later⟩ := List.forall_mem_cons.mp others
    rw [List.any_cons, List.any_cons, ih later, ruleApplies_of_not_readsGroupId here node groupId]

theorem ignoredAfter_of_not_readsGroupId (excluding : ∀ rule ∈ excludeRemarks, readsGroupId rule = false)
    (including : ∀ rule ∈ includeRemarks, readsGroupId rule = false) (node : Proxy ρ) :
    chkIgnore engine node excludeRemarks includeRemarks = ignoredAfter engine excludeRemarks includeRemarks groupID node := by
  rw [ignoredAfter, chkIgnore, chkIgnore, any_of_not_readsGroupId excluding node (asWord groupID),
    any_of_not_readsGroupId including node (asWord groupID)]

theorem filterNodes_iff (engine : Jpcre2) (nodes : List (Proxy ρ)) (excludeRemarks includeRemarks : List Text) (groupID : Int) :
    (filterNodes engine nodes excludeRemarks includeRemarks groupID =
        (nodes.filter fun node => !ignoredAfter engine excludeRemarks includeRemarks groupID node).mapIdx (assigned groupID) ↔
      ∀ node ∈ nodes, chkIgnore engine node excludeRemarks includeRemarks =
        ignoredAfter engine excludeRemarks includeRemarks groupID node) ∧
    ((∀ rule ∈ excludeRemarks, readsGroupId rule = false) → (∀ rule ∈ includeRemarks, readsGroupId rule = false) →
      filterNodes engine nodes excludeRemarks includeRemarks groupID =
        (nodes.filter fun node => !ignoredAfter engine excludeRemarks includeRemarks groupID node).mapIdx (assigned groupID)) := by
  refine ⟨filterNodes_agrees_iff nodes, fun excluding including => (filterNodes_agrees_iff nodes).mpr ?_⟩
  exact fun node _ => ignoredAfter_of_not_readsGroupId excluding including node

-- An engine that knows one number and one rule.
def oneRuleEngine : Jpcre2 where
  Regex := Text
  compile _ _ pattern := some pattern
  count pattern subject _ := if pattern = regNum ∧ subject = chars "1" then 1 else 0
  substrings pattern subject _ :=
    if pattern = groupidRegex ∧ subject = chars "!!GROUPID=1" then [[subject, chars "1"]] else []
  replaced _ subject _ _ := subject

theorem filter_before_groupId :
    ¬ filterNodes oneRuleEngine [{ remark := chars "HK", others := () }] [chars "!!GROUPID=1"] [] 1 =
      (([{ remark := chars "HK", others := () }] : List (Proxy Unit)).filter fun node =>
        !ignoredAfter oneRuleEngine [chars "!!GROUPID=1"] [] 1 node).mapIdx (assigned 1) := by
  decide

end Filters

end SubConverter.Generator.NodeMatch
