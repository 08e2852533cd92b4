import Mathlib.Data.List.ReduceOption
import SubConverter.Generator.RuleTypes
import SubConverter.Generator.StashRules
import SubConverter.Generator.SingBoxFirstMatch

set_option autoImplicit false

namespace SubConverter.Generator

open Handler (trimWhitespace startsWith split getLineBreak)
open Utils.IniReader (Members)

namespace SingBox

section Accepted

variable {regexes : Regexes} {maxAllowedRules : Nat}

def acceptedOf (line : Text) : Option Meaning := (meaningOf line).filter Meaning.counts

def acceptedLine (line : Text) : Option Meaning :=
  if trimWhitespace line = [] ∨ isRuleComment (trimWhitespace line) then none else acceptedOf (strippedLine line)

def acceptedRules (regexes : Regexes) (content : RulesetContent) : List Meaning :=
  if content.ruleContent = [] then []
  else if startsWith content.ruleContent ['[', ']'] then (acceptedOf (content.ruleContent.drop 2)).toList
  else (convertedLines regexes content).filterMap acceptedLine

theorem filter_counts (line : Text) : (meaningOf line).toList.filter Meaning.counts = (acceptedOf line).toList := by
  rw [acceptedOf]
  cases meaningOf line with
  | none => rfl
  | some meaning => cases counts : meaning.counts <;> simp [Option.filter, counts]

theorem counted_accepted (line : Text) : counted (meaningOf line) = (acceptedOf line).toList.length := by
  rw [acceptedOf]
  cases meaningOf line with
  | none => rfl
  | some meaning => cases counts : meaning.counts <;> simp [Option.filter, counted, counts]

def place (maxAllowedRules totalRules : Nat) : Nat := maxAllowedRules + 1 - totalRules

def Read (maxAllowedRules : Nat) (accepted : List Meaning) (totalRules : Nat) (read : List Meaning × Nat) : Prop :=
  read.1.filter Meaning.counts = accepted.take (place maxAllowedRules totalRules) ∧
    read.2 = totalRules + (accepted.take (place maxAllowedRules totalRules)).length

theorem Read.cons {rest : List Meaning} {totalRules : Nat} {read : List Meaning × Nat} (line : Text)
    (room : totalRules ≤ maxAllowedRules) (behind : Read maxAllowedRules rest (totalRules + counted (meaningOf line)) read) :
    Read maxAllowedRules ((acceptedOf line).toList ++ rest) totalRules ((meaningOf line).toList ++ read.1, read.2) := by
  obtain ⟨rules, total⟩ := behind
  rw [counted_accepted] at rules total
  have few : (acceptedOf line).toList.length ≤ 1 := by cases acceptedOf line <;> simp
  have first : (acceptedOf line).toList.take (place maxAllowedRules totalRules) = (acceptedOf line).toList :=
    List.take_of_length_le (by rw [place]; omega)
  have less : place maxAllowedRules totalRules - (acceptedOf line).toList.length =
      place maxAllowedRules (totalRules + (acceptedOf line).toList.length) := by
    rw [place, place]
    omega
  constructor
  · rw [List.filter_append, filter_counts, rules, List.take_append, first, less]
  · rw [List.take_append, first, less, List.length_append, total]
    omega

theorem linesRead_accepted (limited : maxAllowedRules ≠ 0) (lines : List Text) (totalRules : Nat) :
    Read maxAllowedRules (lines.filterMap acceptedLine) totalRules (linesRead maxAllowedRules lines totalRules) := by
  induction lines generalizing totalRules with
  | nil => simp [Read, linesRead]
  | cons line rest ih =>
    rw [linesRead]
    by_cases room : totalRules ≤ maxAllowedRules
    · rw [if_neg (by simp [full]; omega), List.filterMap_cons, acceptedLine]
      by_cases comment : trimWhitespace line = [] ∨ isRuleComment (trimWhitespace line)
      · rw [if_pos comment, if_pos comment]
        exact ih totalRules
      · rw [if_neg comment, if_neg comment]
        have step := Read.cons (strippedLine line) room (ih (totalRules + counted (meaningOf (strippedLine line))))
        cases accepted : acceptedOf (strippedLine line) with
        | none =>
          rw [accepted] at step
          exact step
        | some meaning =>
          rw [accepted] at step
          exact step
    · have none : place maxAllowedRules totalRules = 0 := by
        rw [place]
        omega
      rw [if_pos (by simp [full, limited]; omega)]
      simp [Read, none]

theorem contentRead_accepted (limited : maxAllowedRules ≠ 0) (content : RulesetContent) {totalRules : Nat}
    (room : totalRules ≤ maxAllowedRules) :
    Read maxAllowedRules (acceptedRules regexes content) totalRules (contentRead regexes maxAllowedRules content totalRules) := by
  rw [acceptedRules, contentRead]
  split
  next => simp [Read]
  next =>
    split
    next =>
      have nothing : Read maxAllowedRules [] (totalRules + counted (meaningOf (content.ruleContent.drop 2)))
          ([], totalRules + counted (meaningOf (content.ruleContent.drop 2))) := by simp [Read]
      simpa using Read.cons (content.ruleContent.drop 2) room nothing
    next => exact linesRead_accepted limited _ _

theorem not_full {totalRules : Nat} (room : totalRules ≤ maxAllowedRules) : full maxAllowedRules totalRules = false := by
  simp [full]
  omega

theorem full_of_lt {totalRules : Nat} (limited : maxAllowedRules ≠ 0) (more : maxAllowedRules < totalRules) :
    full maxAllowedRules totalRules = true := by
  simp [full, limited, more]

theorem totalRules_convertContents (limited : maxAllowedRules ≠ 0) (contents : List RulesetContent) (s : Conversion)
    (empty : s.appending.buckets = []) :
    (convertContents regexes maxAllowedRules contents s).totalRules =
      s.totalRules + ((contents.flatMap (acceptedRules regexes)).take (place maxAllowedRules s.totalRules)).length := by
  induction contents generalizing s with
  | nil => simp [convertContents]
  | cons content rest ih =>
    by_cases room : s.totalRules ≤ maxAllowedRules
    · rw [convertContents_cons content rest s empty (not_full room), ih _ rfl, List.flatMap_cons, List.take_append,
        List.length_append]
      obtain ⟨-, total⟩ := @contentRead_accepted regexes _ limited content _ room
      simp only [Conversion.behind, total, List.length_take, place]
      omega
    · have none : place maxAllowedRules s.totalRules = 0 := by
        rw [place]
        omega
      rw [convertContents, if_pos (full_of_lt limited (by omega)), none]
      simp

end Accepted

section Buckets

variable {regexes : Regexes} {maxAllowedRules : Nat}

def Meaning.key? (meaning : Meaning) : Option Text := meaning.condition?.map Condition.key

def acceptedKeys (regexes : Regexes) (content : RulesetContent) : List (Option Text) :=
  (acceptedRules regexes content).map Meaning.key?

def spread : List (List (Option Text)) → Nat → Bool
  | [], count => count = 0
  | keys :: rest, count =>
    (keys.take count).all Option.isSome && (keys.take count).Nodup && spread rest (count - keys.length)

theorem length_emitted (block : Block) : block.emitted.length = (block.conditions.map Condition.key).dedup.length := by
  have collected := block.collected
  rw [Block.emitted, emitSingBoxRuleBuckets, List.length_map, List.length_insertionSort, ← @List.length_map _ _ _ Prod.fst]
  apply List.Perm.length_eq
  rw [List.perm_ext_iff_of_nodup collected.distinct (List.nodup_dedup _)]
  intro key
  rw [List.mem_dedup, List.mem_map, List.mem_map]
  constructor
  · rintro ⟨entry, there, rfl⟩
    obtain ⟨value, held⟩ := List.exists_mem_of_ne_nil _ (collected.nonempty entry there)
    obtain ⟨condition, read, same, -⟩ := collected.sound entry there value held
    exact ⟨condition, read, same⟩
  · rintro ⟨condition, read, rfl⟩
    obtain ⟨bucket, there, -⟩ := collected.complete condition read
    exact ⟨_, there, rfl⟩

theorem keys_conditions (block : Block) :
    block.conditions.map Condition.key = ((block.meanings.filter Meaning.counts).map Meaning.key?).reduceOption := by
  rw [Block.conditions]
  induction block.meanings with
  | nil => rfl
  | cons meaning rest ih =>
    cases meaning with
    | last valued => cases valued <;> exact ih
    | condition rule => exact congrArg _ ih

theorem map_some_reduceOption {keys : List (Option Text)} (all : ∀ key ∈ keys, key.isSome) : keys.reduceOption.map some = keys := by
  induction keys with
  | nil => rfl
  | cons key rest ih =>
    obtain ⟨here, others⟩ := List.forall_mem_cons.mp all
    obtain ⟨text, rfl⟩ := Option.isSome_iff_exists.mp here
    rw [List.reduceOption_cons_of_some, List.map_cons, ih others]

theorem length_dedup_reduceOption (keys : List (Option Text)) :
    keys.reduceOption.dedup.length ≤ keys.length ∧
      (keys.reduceOption.dedup.length = keys.length ↔ (keys.all Option.isSome && keys.Nodup) = true) := by
  have fewer := (List.dedup_sublist keys.reduceOption).length_le
  have shorter := List.reduceOption_length_le keys
  refine ⟨fewer.trans shorter, ?_⟩
  rw [Bool.and_eq_true, decide_eq_true_eq, List.all_eq_true]
  constructor
  · intro same
    have whole : keys.reduceOption.length = keys.length := by omega
    have all := List.reduceOption_length_eq_iff.mp whole
    have distinct := List.dedup_eq_self.mp ((List.dedup_sublist keys.reduceOption).eq_of_length (by omega))
    refine ⟨all, ?_⟩
    rw [← map_some_reduceOption all]
    exact distinct.map (Option.some_injective _)
  · rintro ⟨all, distinct⟩
    rw [← map_some_reduceOption all] at distinct
    rw [List.Nodup.dedup (distinct.of_map _), List.reduceOption_length_eq_iff.mpr all]

theorem length_blocks (limited : maxAllowedRules ≠ 0) (contents : List RulesetContent) (totalRules : Nat) :
    ((blocksRead regexes maxAllowedRules contents totalRules).flatMap Block.emitted).length ≤ place maxAllowedRules totalRules ∧
      (((blocksRead regexes maxAllowedRules contents totalRules).flatMap Block.emitted).length = place maxAllowedRules totalRules ↔
        spread (contents.map (acceptedKeys regexes)) (place maxAllowedRules totalRules) = true) := by
  induction contents generalizing totalRules with
  | nil => simp [blocksRead, spread, eq_comm]
  | cons content rest ih =>
    rw [blocksRead, List.map_cons, spread]
    by_cases room : totalRules ≤ maxAllowedRules
    · rw [if_neg (by simp [not_full room])]
      obtain ⟨rules, total⟩ := @contentRead_accepted regexes _ limited content _ room
      have emitted := length_emitted ⟨content.ruleGroup, (contentRead regexes maxAllowedRules content totalRules).1⟩
      rw [keys_conditions, rules, List.map_take, ← acceptedKeys] at emitted
      obtain ⟨few, each⟩ := length_dedup_reduceOption ((acceptedKeys regexes content).take (place maxAllowedRules totalRules))
      obtain ⟨behind, others⟩ := ih (contentRead regexes maxAllowedRules content totalRules).2
      have less : place maxAllowedRules (contentRead regexes maxAllowedRules content totalRules).2 =
          place maxAllowedRules totalRules - (acceptedKeys regexes content).length := by
        rw [total, place, place, List.length_take, acceptedKeys, List.length_map]
        omega
      rw [less] at behind others
      rw [← emitted] at few each
      rw [List.length_take] at few each
      dsimp only
      rw [List.flatMap_cons, List.length_append, Bool.and_eq_true, ← each, ← others]
      omega
    · have none : place maxAllowedRules totalRules = 0 := by
        rw [place]
        omega
      have rest : ∀ sources : List RulesetContent, spread (sources.map (acceptedKeys regexes)) 0 = true := by
        intro sources
        induction sources with
        | nil => rfl
        | cons source sources ih => simp [spread, ih]
      rw [if_pos (full_of_lt limited (by omega)), none]
      simp [rest]

end Buckets

end SingBox

section Limit

variable {regexes : Regexes} {maxAllowedRules : Nat}

theorem size_pushAll {node next : YamlNode} {rules : List Text} (pushed : node.pushAll rules = .ok next) :
    next.size = node.size + rules.length := by
  cases rules with
  | nil =>
    obtain rfl := Except.ok.inj pushed
    rfl
  | cons rule rest =>
    cases node with
    | null =>
      have first : YamlNode.null.pushAll (rule :: rest) = (YamlNode.sequence [.scalar rule]).pushAll rest := rfl
      rw [first, pushAll_sequence] at pushed
      obtain rfl := Except.ok.inj pushed
      simp [YamlNode.size]
    | sequence items =>
      rw [pushAll_sequence] at pushed
      obtain rfl := Except.ok.inj pushed
      simp [YamlNode.size]
    | scalar | map => cases pushed

theorem length_generatedRules (limited : maxAllowedRules ≠ 0) (contents : List RulesetContent) :
    (generatedRules regexes maxAllowedRules contents).length ≤ maxAllowedRules ↔
      (contents.flatMap (rulesOf regexes)).length ≤ maxAllowedRules := by
  rw [generatedRules, allowed, if_neg limited, List.length_take]
  omega

theorem length_written {limit : Nat} {written available : List Written} (first : written <+: available)
    (complete : written = available ∨ limit ≠ 0 ∧ limit < written.countP Written.counts) :
    written.length ≤ limit ↔ available.length ≤ limit := by
  rcases complete with rfl | ⟨-, passed⟩
  · rfl
  · have counted := @List.countP_le_length _ Written.counts written
    have more := first.length_le
    omega

def addedRules (before : YamlNode) (after : Option YamlNode) : Nat := after.elim 0 YamlNode.size - before.size

theorem rule_limit_iff {β : Type} (env : SurgeEnv) (keyNumber : YamlNode → Option Nat) (baseRule : Entries) (base : Members)
    (route : SingBox.BaseRoute β) (contents : List RulesetContent) (sources : List RulesetSource)
    (overwriteOriginalRules newFieldName singBoxAddClashModes : Bool) (limited : env.maxAllowedRules ≠ 0) :
    (∀ entries, rulesetToClash env.regexes env.maxAllowedRules baseRule contents overwriteOriginalRules newFieldName = .ok entries →
      (addedRules (originalRules baseRule overwriteOriginalRules newFieldName) (definedField entries (fieldName newFieldName)) ≤
          env.maxAllowedRules ↔
        (contents.flatMap (rulesOf env.regexes)).length ≤ env.maxAllowedRules)) ∧
    (∀ output entries, rulesetToClashStr env.regexes env.maxAllowedRules keyNumber baseRule contents overwriteOriginalRules
        newFieldName = .ok (output, entries) →
      ∃ carried rules, carriedText keyNumber baseRule overwriteOriginalRules newFieldName = .ok carried ∧
        rules <+: contents.flatMap (rulesOf env.regexes) ∧ output = carried ++ printed rules ∧
        (rules.length ≤ env.maxAllowedRules ↔ (contents.flatMap (rulesOf env.regexes)).length ≤ env.maxAllowedRules)) ∧
    (∀ after rules, rulesetToSurge env base sources overwriteOriginalRules = some (after, rules) →
      rules = itemCount after - itemCount (surgeBase env.surgeVer base overwriteOriginalRules) ∧
        (rules ≤ env.maxAllowedRules ↔ (sources.flatMap (surgeWritten env)).length ≤ env.maxAllowedRules)) ∧
    (∀ done, rulesetToStash env.regexes env.maxAllowedRules baseRule sources overwriteOriginalRules = .ok done →
      done.stats.emittedRules ≤ env.maxAllowedRules ∧
        (definedField done.root (chars "rules")).elim 0 YamlNode.size ≤ env.maxAllowedRules) ∧
    ((SingBox.convertContents env.regexes env.maxAllowedRules contents {}).totalRules ≤ env.maxAllowedRules ↔
      (contents.flatMap (SingBox.acceptedRules env.regexes)).length ≤ env.maxAllowedRules) ∧
    ((SingBox.rulesetToSingBox env.regexes env.maxAllowedRules route contents overwriteOriginalRules singBoxAddClashModes).rules.length -
          (SingBox.inheritedRules route overwriteOriginalRules singBoxAddClashModes).length ≤ env.maxAllowedRules ↔
      SingBox.spread (contents.map (SingBox.acceptedKeys env.regexes)) (env.maxAllowedRules + 1) = false) := by
  refine ⟨fun entries done => ?_, fun output entries done => ?_, fun after rules done => ?_, fun done ran => ?_, ?_, ?_⟩
  · obtain ⟨node, found, pushed⟩ := rulesetToClash_generated done
    rw [found, addedRules, Option.elim_some, size_pushAll pushed, Nat.add_sub_cancel_left]
    exact length_generatedRules limited contents
  · obtain ⟨carried, read, whole⟩ := rulesetToClashStr_generated done
    refine ⟨carried, _, read, ?_, whole, length_generatedRules limited contents⟩
    rw [generatedRules, allowed, if_neg limited]
    exact List.take_prefix _ _
  · obtain ⟨written, first, complete, -, count, items⟩ := rulesetToSurge_writes done
    rw [items, count, Nat.add_sub_cancel_left]
    exact ⟨rfl, length_written first complete⟩
  · obtain ⟨rules, terminalRules, new, -, found, emitted, bounded⟩ := rulesetToStash_rules ran
    have within := bounded limited
    rw [found, emitted, Option.elim_some, YamlNode.size, List.length_append, List.length_append, List.length_map]
    omega
  · have start : ({} : SingBox.Conversion).totalRules = 0 := rfl
    rw [SingBox.totalRules_convertContents limited contents {} rfl, List.length_take, SingBox.place, start]
    omega
  · obtain ⟨rules, -⟩ := @SingBox.convertContents_eq env.regexes env.maxAllowedRules contents {} rfl
    obtain ⟨few, each⟩ := @SingBox.length_blocks env.regexes _ limited contents 0
    have emitted := congrArg List.length rules
    rw [List.length_append, List.length_nil, Nat.zero_add] at emitted
    rw [← emitted, SingBox.place, Nat.sub_zero] at few each
    rw [SingBox.rulesetToSingBox, List.length_append, List.length_map, Nat.add_sub_cancel_left, ← Bool.not_eq_true, ← each]
    omega

def oneRule (surgeVer : Int) : SurgeEnv := { plainSurge surgeVer with maxAllowedRules := 1 }

def inlineRules : List RulesetSource :=
  [{ ruleGroup := ['G'], ruleContent := chars "[]DOMAIN,a.com" }, { ruleGroup := ['G'], ruleContent := chars "[]DOMAIN,b.com" }]

def mixedRules : List RulesetSource :=
  [{ ruleGroup := ['G'], ruleContent := chars "[]DOMAIN,a.com" }, fetchedRules "DOMAIN,b.com\n# remark\nDOMAIN-SUFFIX,c.com"]

def mixedEntries : Entries :=
  [(.scalar (chars "rules"),
    .sequence [.scalar (chars "DOMAIN,a.com,G"), .scalar (chars "DOMAIN,b.com,G"), .scalar (chars "DOMAIN-SUFFIX,c.com,G")])]

theorem rule_limit_mixed :
    addedRules .null (definedField mixedEntries (chars "rules")) ≤ 3 ∧
      (∀ after rules, rulesetToSurge { plainSurge 4 with maxAllowedRules := 3 } {} mixedRules true = some (after, rules) →
        rules ≤ 3) ∧
      (SingBox.convertContents (plainSurge 4).regexes 3 (mixedRules.map RulesetSource.toRulesetContent) {}).totalRules ≤ 3 := by
  have limit := rule_limit_iff { plainSurge 4 with maxAllowedRules := 3 } (fun _ => none) [] {} ({} : SingBox.BaseRoute Unit)
    (mixedRules.map RulesetSource.toRulesetContent) mixedRules true true false (by decide)
  obtain ⟨clash, -, surge, -, singBox, -⟩ := limit
  refine ⟨(clash mixedEntries (by rfl)).mpr (by decide +kernel), ?_, singBox.mpr (by decide +kernel)⟩
  intro after rules done
  exact (surge after rules done).2.mpr (by decide +kernel)

theorem rule_limit_passed :
    1 < (nodeRules (oneRule 4).regexes 1 [] (inlineRules.map RulesetSource.toRulesetContent) true true).elim 0 List.length ∧
      1 < (textRules (oneRule 4).regexes 1 (fun _ => none) [] (inlineRules.map RulesetSource.toRulesetContent) true true).elim 0
        List.length ∧
      1 < (rulesetToSurge (oneRule 4) {} inlineRules true).elim 0 Prod.snd ∧
      1 < (SingBox.rulesetToSingBox (oneRule 4).regexes 1 ({} : SingBox.BaseRoute Unit)
        (inlineRules.map RulesetSource.toRulesetContent) true false).rules.length := by
  decide

end Limit

end SubConverter.Generator
