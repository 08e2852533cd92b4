import Mathlib.Data.List.Find
import SubConverter.Generator.SingBoxBuckets
import SubConverter.Lib.FirstMatch

set_option autoImplicit false

namespace SubConverter.Generator.SingBox

open Handler (trimWhitespace startsWith split toLower toUpper getLineBreak)
open FirstMatch

section Meanings

structure Convertible where
  type : Text
  value : Text
  condition : Condition
  converts : singBoxCondition type (toLower value) = some condition

def convertibleOf (type value : Text) : Option Convertible :=
  match converts : singBoxCondition type (toLower value) with
  | some condition => some ⟨type, value, condition, converts⟩
  | none => none

theorem convertibleOf_condition (type value : Text) :
    (convertibleOf type value).map Convertible.condition = singBoxCondition type (toLower value) := by
  rw [convertibleOf]
  split
  next condition converts => exact converts.symm
  next converts => exact converts.symm

inductive Meaning where
  -- FINAL or MATCH, and whether anything stands behind the type.
  | last (valued : Bool)
  | condition (rule : Convertible)

def meaningOf (line : Text) : Option Meaning :=
  match split line ',' with
  | [] => none
  | first :: rest =>
    let type := toUpper (trimEnd first)
    if type = chars "MATCH" ∨ type = chars "FINAL" then some (.last (rest ≠ []))
    else
      match rest with
      | [] => none
      | second :: _ =>
        if type ∉ singBoxRuleTypes then none else (convertibleOf type (trimEnd second)).map Meaning.condition

def Meaning.counts : Meaning → Bool
  | .last valued => valued
  | .condition _ => true

def Appending.take (group : Text) (s : Appending) : Meaning → Appending
  | .last valued => if valued then { s with final := group } else s
  | .condition rule => s.add rule.condition

theorem appendSingBoxRule_eq (line group : Text) (s : Appending) :
    appendSingBoxRule line group s =
      match meaningOf line with
      | some meaning => if meaning.counts then some (s.take group meaning) else none
      | none => none := by
  rw [appendSingBoxRule, meaningOf]
  cases split line ',' with
  | nil => rfl
  | cons first rest =>
    by_cases last : toUpper (trimEnd first) = chars "MATCH" ∨ toUpper (trimEnd first) = chars "FINAL"
    · have known : toUpper (trimEnd first) ∈ singBoxRuleTypes := by
        rcases last with same | same <;> rw [same] <;> decide
      dsimp only
      rw [if_pos last]
      cases rest with
      | nil => rfl
      | cons second more =>
        dsimp only
        rw [if_neg (not_not.mpr known), if_pos last]
        rfl
    · dsimp only
      rw [if_neg last]
      cases rest with
      | nil => rfl
      | cons second more =>
        dsimp only
        by_cases known : toUpper (trimEnd first) ∈ singBoxRuleTypes
        · rw [if_neg (not_not.mpr known), if_neg last, if_neg (not_not.mpr known), ← convertibleOf_condition]
          cases convertibleOf (toUpper (trimEnd first)) (trimEnd second) <;> rfl
        · rw [if_pos known, if_pos known]

end Meanings

section Reading

variable (regexes : Regexes) (maxAllowedRules : Nat)

-- The limit counts the rules that are accepted.
def counted : Option Meaning → Nat
  | some meaning => if meaning.counts then 1 else 0
  | none => 0

def linesRead : List Text → Nat → List Meaning × Nat
  | [], totalRules => ([], totalRules)
  | line :: rest, totalRules =>
    if full maxAllowedRules totalRules then ([], totalRules)
    else
      let strLine := trimWhitespace line
      if strLine = [] ∨ isRuleComment strLine then linesRead rest totalRules
      else
        let meaning := meaningOf (stripRulesetComment strLine false)
        let (rules, total) := linesRead rest (totalRules + counted meaning)
        (meaning.toList ++ rules, total)

def contentRead (content : RulesetContent) (totalRules : Nat) : List Meaning × Nat :=
  if content.ruleContent = [] then ([], totalRules)
  else if startsWith content.ruleContent ['[', ']'] then
    let meaning := meaningOf (content.ruleContent.drop 2)
    (meaning.toList, totalRules + counted meaning)
  else
    let converted := convertRuleset regexes content.ruleContent content.ruleType
    linesRead maxAllowedRules (split converted (getLineBreak converted)) totalRules

structure Block where
  group : Text
  meanings : List Meaning

def blocksRead : List RulesetContent → Nat → List Block
  | [], _ => []
  | content :: rest, totalRules =>
    if full maxAllowedRules totalRules then []
    else
      let (meanings, total) := contentRead regexes maxAllowedRules content totalRules
      ⟨content.ruleGroup, meanings⟩ :: blocksRead rest total

structure Rule where
  group : Text
  meaning : Meaning

def Block.rules (block : Block) : List Rule := block.meanings.map (Rule.mk block.group)

def rulesRead (contents : List RulesetContent) : List Rule := (blocksRead regexes maxAllowedRules contents 0).flatMap Block.rules

def Meaning.condition? : Meaning → Option Condition
  | .last _ => none
  | .condition rule => some rule.condition

def Block.conditions (block : Block) : List Condition := block.meanings.filterMap Meaning.condition?

def Rule.terminal (rule : Rule) : Bool :=
  match rule.meaning with
  | .last valued => valued
  | .condition _ => false

def lastGroup (rules : List Rule) : Option Text := target Rule.terminal Rule.group rules.reverse

end Reading

section Conversion

variable {regexes : Regexes} {maxAllowedRules : Nat} {group : Text} {s : Appending}

theorem take_toList (group line : Text) (s : Appending) :
    (meaningOf line).toList.foldl (Appending.take group) s = (appendSingBoxRule line group s).getD s := by
  rw [appendSingBoxRule_eq]
  cases meaningOf line with
  | none => rfl
  | some meaning =>
    cases meaning with
    | condition rule => rfl
    | last valued => cases valued <;> rfl

theorem counted_eq (group line : Text) (s : Appending) :
    counted (meaningOf line) = if (appendSingBoxRule line group s).isSome then 1 else 0 := by
  rw [appendSingBoxRule_eq]
  cases meaningOf line with
  | none => rfl
  | some meaning => cases here : meaning.counts <;> simp [counted, here]

theorem appendLines_eq (lines : List Text) (s : Appending) (totalRules : Nat) :
    appendLines maxAllowedRules group lines s totalRules =
      ((linesRead maxAllowedRules lines totalRules).1.foldl (Appending.take group) s,
        (linesRead maxAllowedRules lines totalRules).2) := by
  induction lines generalizing s totalRules with
  | nil => rfl
  | cons line rest ih =>
    rw [appendLines, linesRead]
    dsimp only
    split
    next => rfl
    next =>
      split
      next => exact ih s totalRules
      next =>
        rw [List.foldl_append, take_toList, counted_eq group _ s]
        cases appendSingBoxRule (stripRulesetComment (trimWhitespace line) false) group s with
        | none => exact ih s totalRules
        | some next => exact ih next (totalRules + 1)

theorem buckets_take (meanings : List Meaning) {s plain : Appending} (same : s.buckets = plain.buckets) :
    (meanings.foldl (Appending.take group) s).buckets = ((meanings.filterMap Meaning.condition?).foldl Appending.add plain).buckets := by
  induction meanings generalizing s plain with
  | nil => exact same
  | cons meaning rest ih =>
    cases meaning with
    | last valued => cases valued <;> exact ih same
    | condition rule => exact ih (by rw [Appending.take, buckets_add, buckets_add, same])

theorem final_take (meanings : List Meaning) (s : Appending) :
    (meanings.foldl (Appending.take group) s).final = (lastGroup (meanings.map (Rule.mk group))).getD s.final := by
  induction meanings generalizing s with
  | nil => rfl
  | cons meaning rest ih =>
    rw [List.foldl_cons, ih, List.map_cons, lastGroup, lastGroup, List.reverse_cons, target_append]
    cases target Rule.terminal Rule.group (rest.map (Rule.mk group)).reverse with
    | some later => rfl
    | none =>
      cases meaning with
      | condition rule => rfl
      | last valued => cases valued <;> rfl

def Block.emitted (block : Block) : List RouteRule :=
  emitSingBoxRuleBuckets (block.conditions.foldl Appending.add {}).buckets block.group

def Conversion.behind (s : Conversion) (block : Block) (totalRules : Nat) : Conversion :=
  { rules := s.rules ++ block.emitted
    appending := { block.meanings.foldl (Appending.take block.group) s.appending with buckets := [] }
    totalRules := totalRules }

theorem flush_take (s : Conversion) (block : Block) (totalRules : Nat) (empty : s.appending.buckets = []) :
    Conversion.flush { s with appending := block.meanings.foldl (Appending.take block.group) s.appending, totalRules := totalRules }
        block.group = s.behind block totalRules := by
  rw [Conversion.flush, Conversion.behind, Block.emitted, Block.conditions,
    ← @buckets_take block.group block.meanings _ _ empty]

theorem flush_same (s : Conversion) (empty : s.appending.buckets = []) : s.flush group = s := by
  obtain ⟨rules, ⟨buckets, geositeCodes, geoipCodes, final⟩, totalRules⟩ := s
  obtain rfl : buckets = [] := empty
  simp [Conversion.flush, emitSingBoxRuleBuckets]

theorem convertContents_cons (content : RulesetContent) (rest : List RulesetContent) (s : Conversion)
    (empty : s.appending.buckets = []) (room : full maxAllowedRules s.totalRules = false) :
    convertContents regexes maxAllowedRules (content :: rest) s = convertContents regexes maxAllowedRules rest
      (s.behind ⟨content.ruleGroup, (contentRead regexes maxAllowedRules content s.totalRules).1⟩
        (contentRead regexes maxAllowedRules content s.totalRules).2) := by
  rw [← flush_take _ _ _ empty, convertContents, if_neg (by simp [room]), contentRead]
  split
  next => exact congrArg _ (flush_same s empty).symm
  next =>
    split
    next =>
      dsimp only
      rw [take_toList, counted_eq content.ruleGroup _ s.appending]
      cases appendSingBoxRule (content.ruleContent.drop 2) content.ruleGroup s.appending with
      | none => exact congrArg _ (flush_same s empty).symm
      | some appending => rfl
    next =>
      dsimp only
      rw [appendLines_eq]

theorem lastGroup_append (first second : List Rule) : lastGroup (first ++ second) = (lastGroup second).or (lastGroup first) := by
  rw [lastGroup, List.reverse_append, target_append, lastGroup, lastGroup]

theorem convertContents_eq (contents : List RulesetContent) (s : Conversion) (empty : s.appending.buckets = []) :
    (convertContents regexes maxAllowedRules contents s).rules =
        s.rules ++ (blocksRead regexes maxAllowedRules contents s.totalRules).flatMap Block.emitted ∧
      (convertContents regexes maxAllowedRules contents s).appending.final =
        (lastGroup ((blocksRead regexes maxAllowedRules contents s.totalRules).flatMap Block.rules)).getD s.appending.final := by
  induction contents generalizing s with
  | nil => exact ⟨(List.append_nil _).symm, rfl⟩
  | cons content rest ih =>
    rw [blocksRead]
    split
    next limit =>
      rw [convertContents, if_pos limit]
      exact ⟨(List.append_nil _).symm, rfl⟩
    next limit =>
      rw [convertContents_cons content rest s empty (Bool.not_eq_true _ ▸ limit)]
      obtain ⟨rules, final⟩ := ih (s.behind ⟨content.ruleGroup, (contentRead regexes maxAllowedRules content s.totalRules).1⟩
        (contentRead regexes maxAllowedRules content s.totalRules).2) rfl
      rw [rules, final]
      dsimp only
      rw [List.flatMap_cons, List.flatMap_cons, lastGroup_append]
      constructor
      · rw [Conversion.behind, List.append_assoc]
      · rw [Conversion.behind, final_take, Block.rules]
        cases lastGroup _ <;> rfl

end Conversion

section Routing

variable {β κ : Type}

structure Client (β κ : Type) where
  reads : Text → Bool → Atom → κ → Bool
  base : BaseRule β → κ → Option Text
  mode : Text → κ → Bool
  accepts : Text → RuleValue → Bool

variable (client : Client β κ) (means : Text → Text → κ → Bool) (c : κ)

def RouteItem.decides : RouteItem β → Option Text
  | .base rule => client.base rule c
  | .clashMode mode outbound => if client.mode mode c then some outbound else none
  | .route rule => if rule.applies client.reads c then some rule.outbound else none

def RouteItem.accepted : RouteItem β → Bool
  | .route rule => client.accepts rule.field rule.value
  | .base _ | .clashMode _ _ => true

def Route.chosen (route : Route β) : Option Text :=
  if route.rules.all (RouteItem.accepted client) then some ((route.rules.findSome? (RouteItem.decides client c)).getD route.final) else none

-- A rule as it is written; FINAL and MATCH hold for every connection.
def Rule.holds (rule : Rule) : Bool :=
  match rule.meaning with
  | .last _ => true
  | .condition convertible => means convertible.type convertible.value c

-- A rule with a condition, its value in lower case.
def Rule.lowered (rule : Rule) : Bool :=
  match rule.meaning with
  | .last _ => false
  | .condition convertible => means convertible.type (toLower convertible.value) c

variable (regexes : Regexes) (maxAllowedRules : Nat) (base : BaseRoute β) (contents : List RulesetContent)
variable (overwriteOriginalRules singBoxAddClashModes : Bool)

def expected : Option Text := target (Rule.holds means c) Rule.group (rulesRead regexes maxAllowedRules contents)

def decisive : Option Text :=
  (((inheritedRules base overwriteOriginalRules singBoxAddClashModes).findSome? (RouteItem.decides client c)).or
    (target (Rule.lowered means c) Rule.group (rulesRead regexes maxAllowedRules contents))).or
      (lastGroup (rulesRead regexes maxAllowedRules contents))

def OneVersionEach : Prop := ∀ block ∈ blocksRead regexes maxAllowedRules contents 0, OneVersion block.conditions

def Undisturbed : Prop :=
  ∀ first, (rulesRead regexes maxAllowedRules contents).find? (Rule.holds means c) = some first →
    OneVersionEach regexes maxAllowedRules contents ∧
      (decisive client means c regexes maxAllowedRules base contents overwriteOriginalRules singBoxAddClashModes).getD [] = first.group

variable {client means c regexes maxAllowedRules base contents overwriteOriginalRules singBoxAddClashModes}

theorem proper_conditions (block : Block) : ∀ condition ∈ block.conditions, condition.shape ∈ shapes := by
  intro condition read
  obtain ⟨meaning, -, same⟩ := List.mem_filterMap.mp read
  cases meaning with
  | last valued => cases same
  | condition rule =>
    obtain rfl := Option.some.inj same
    exact shape_mem rule.converts

theorem Block.collected (block : Block) : Collected block.conditions (block.conditions.foldl Appending.add {}).buckets :=
  collected_foldl _ (proper_conditions block) rfl

structure Client.Agrees (client : Client β κ) (means : Text → Text → κ → Bool) : Prop where
  reads : ∀ type value condition c, singBoxCondition type (toLower value) = some condition →
    condition.applies client.reads c = means type (toLower value) c
  takesLists : TakesLists client.accepts

theorem undisturbed_of_last {before behind : List Rule}
    (quiet : (inheritedRules base overwriteOriginalRules singBoxAddClashModes).findSome? (RouteItem.decides client c) = none)
    (one : OneVersionEach regexes maxAllowedRules contents) (read : rulesRead regexes maxAllowedRules contents = before ++ behind)
    (plain : ∀ rule ∈ before, rule.lowered means c = rule.holds means c)
    (last : behind = [] ∨ ∃ rule, behind = [rule] ∧ rule.terminal = true) :
    Undisturbed client means c regexes maxAllowedRules base contents overwriteOriginalRules singBoxAddClashModes := by
  intro first found
  refine ⟨one, ?_⟩
  rw [decisive, quiet, Option.none_or, read, target_append, target, List.find?_congr plain]
  rw [read, List.find?_append] at found
  cases here : before.find? (Rule.holds means c) with
  | some rule =>
    rw [here, Option.some_or] at found
    obtain rfl := Option.some.inj found
    rfl
  | none =>
    rw [here, Option.none_or] at found
    rcases last with rfl | ⟨rule, rfl, terminal⟩
    · cases found
    · have unconditional : rule.lowered means c = false := by
        rw [Rule.terminal] at terminal
        rw [Rule.lowered]
        cases meaning : rule.meaning with
        | last valued => rfl
        | condition convertible => simp [meaning] at terminal
      obtain rfl : rule = first := List.mem_singleton.mp (List.mem_of_find?_eq_some found) |>.symm
      rw [Option.map_none, Option.none_or, target, List.find?_cons_of_neg (by simp [unconditional]), lastGroup, List.reverse_append,
        target_append, List.reverse_singleton, target, target, List.find?_cons_of_pos terminal]
      rfl

end Routing

section Instances

end Instances

end SubConverter.Generator.SingBox
