import SubConverter.Utils.Regexp
import SubConverter.Parser.Proxy
import SubConverter.Handler.Addresses

set_option autoImplicit false

namespace SubConverter.Generator.NodeMatch

open Handler (split startsWith atoi)
open SubConverter.Utils (Jpcre2 CompiledRegex regMatch regFind regReplace regGetMatch search_matches fullMatch_matches)
open SubConverter.Parser (ProxyType Proxy)

section Ranges

variable (engine : Jpcre2)

def intMax : Int := 2147483647

def intMin : Int := -2147483648

def wrapInt (n : Int) : Int := (BitVec.ofInt 32 n).toInt

-- The value of strtol, which stops at the ends of long, as an int.
def toInt (text : Text) (default : Int) : Int :=
  if text = [] then default else wrapInt (max (-(2 ^ 63)) (min (2 ^ 63 - 1) (atoi text)))

def regNum : Text := chars "-?\\d+"

def regRange : Text := chars "(\\d+)-(\\d+)"

def regNot : Text := chars "\\!-?(\\d+)"

def regNotRange : Text := chars "\\!(\\d+)-(\\d+)"

def regLess : Text := chars "(\\d+)-"

def regMore : Text := chars "(\\d+)\\+"

structure Scanning (α : Type) where
  result : α
  bounds : Text × Text

def matchPart (target : Int) (state : Scanning Bool) (x : Text) : Scanning Bool :=
  if regMatch engine x regNum then
    if toInt x intMax = target then { state with result := true } else state
  else if regMatch engine x regRange then
    let bounds := regGetMatch engine x regRange state.bounds
    if toInt bounds.1 intMax ≤ target ∧ target ≤ toInt bounds.2 intMin then ⟨true, bounds⟩ else ⟨state.result, bounds⟩
  else if regMatch engine x regNot then
    if toInt (regReplace engine x regNot (chars "$1") true true) intMax = target then { state with result := false }
    else { state with result := true }
  else if regMatch engine x regNotRange then
    let bounds := regGetMatch engine x regRange state.bounds
    if toInt bounds.1 intMax ≤ target ∧ target ≤ toInt bounds.2 intMin then ⟨false, bounds⟩ else ⟨true, bounds⟩
  else if regMatch engine x regLess then
    if target ≤ toInt (regReplace engine x regLess (chars "$1") true true) intMax then { state with result := true } else state
  else if regMatch engine x regMore then
    if toInt (regReplace engine x regMore (chars "$1") true true) intMin ≤ target then { state with result := true } else state
  else state

def matchRange (range : Text) (target : Int) : Bool :=
  ((split range ',').foldl (matchPart engine target) ⟨false, [], []⟩).result

inductive TermKind where
  | equal
  | range
  | notEqual
  | notRange
  | lessOrEqual
  | greaterOrEqual
deriving DecidableEq, Repr

structure Term where
  kind : TermKind
  first : Int
  second : Int
deriving DecidableEq, Repr

def preparePart (state : Scanning (List Term)) (value : Text) : Scanning (List Term) :=
  if regMatch engine value regNum then { state with result := state.result ++ [⟨.equal, toInt value intMax, 0⟩] }
  else if regMatch engine value regRange then
    let bounds := regGetMatch engine value regRange state.bounds
    ⟨state.result ++ [⟨.range, toInt bounds.1 intMax, toInt bounds.2 intMin⟩], bounds⟩
  else if regMatch engine value regNot then
    { state with result := state.result ++ [⟨.notEqual, toInt (regReplace engine value regNot (chars "$1") true true) intMax, 0⟩] }
  else if regMatch engine value regNotRange then
    let bounds := regGetMatch engine value regRange state.bounds
    ⟨state.result ++ [⟨.notRange, toInt bounds.1 intMax, toInt bounds.2 intMin⟩], bounds⟩
  else if regMatch engine value regLess then
    { state with result := state.result ++ [⟨.lessOrEqual, toInt (regReplace engine value regLess (chars "$1") true true) intMax, 0⟩] }
  else if regMatch engine value regMore then
    { state with result := state.result ++ [⟨.greaterOrEqual, toInt (regReplace engine value regMore (chars "$1") true true) intMin, 0⟩] }
  else state

structure PreparedRangeMatcher where
  terms : List Term
deriving DecidableEq, Repr

def PreparedRangeMatcher.prepare (range : Text) : PreparedRangeMatcher :=
  ⟨((split range ',').foldl (preparePart engine) ⟨[], [], []⟩).result⟩

def Term.apply (target : Int) (matched : Bool) (term : Term) : Bool :=
  match term.kind with
  | .equal => if term.first = target then true else matched
  | .range => if term.first ≤ target ∧ target ≤ term.second then true else matched
  | .notEqual => term.first ≠ target
  | .notRange => !(term.first ≤ target ∧ target ≤ term.second : Bool)
  | .lessOrEqual => if target ≤ term.first then true else matched
  | .greaterOrEqual => if term.first ≤ target then true else matched

def PreparedRangeMatcher.matches (matcher : PreparedRangeMatcher) (target : Int) : Bool :=
  matcher.terms.foldl (Term.apply target) false

variable {engine} {target : Int}

def ran (target : Int) (state : Scanning (List Term)) : Scanning Bool :=
  ⟨state.result.foldl (Term.apply target) false, state.bounds⟩

theorem ran_push (terms : List Term) (bounds : Text × Text) (term : Term) :
    ran target ⟨terms ++ [term], bounds⟩ = ⟨term.apply target (terms.foldl (Term.apply target) false), bounds⟩ := by
  rw [ran, List.foldl_append]
  rfl

theorem ran_preparePart (state : Scanning (List Term)) (value : Text) :
    ran target (preparePart engine state value) = matchPart engine target (ran target state) value := by
  unfold preparePart matchPart
  by_cases num : regMatch engine value regNum
  · rw [if_pos num, if_pos num, ran_push]
    by_cases same : toInt value intMax = target <;> simp [ran, Term.apply, same]
  rw [if_neg num, if_neg num]
  by_cases range : regMatch engine value regRange
  · rw [if_pos range, if_pos range, ran_push]
    by_cases inside : toInt (regGetMatch engine value regRange state.bounds).1 intMax ≤ target ∧
        target ≤ toInt (regGetMatch engine value regRange state.bounds).2 intMin <;> simp [ran, Term.apply, inside]
  rw [if_neg range, if_neg range]
  by_cases without : regMatch engine value regNot
  · rw [if_pos without, if_pos without, ran_push]
    by_cases same : toInt (regReplace engine value regNot (chars "$1") true true) intMax = target <;> simp [ran, Term.apply, same]
  rw [if_neg without, if_neg without]
  by_cases outside : regMatch engine value regNotRange
  · rw [if_pos outside, if_pos outside, ran_push]
    by_cases inside : toInt (regGetMatch engine value regRange state.bounds).1 intMax ≤ target ∧
        target ≤ toInt (regGetMatch engine value regRange state.bounds).2 intMin <;> simp [ran, Term.apply, inside]
  rw [if_neg outside, if_neg outside]
  by_cases less : regMatch engine value regLess
  · rw [if_pos less, if_pos less, ran_push]
    by_cases below : target ≤ toInt (regReplace engine value regLess (chars "$1") true true) intMax <;>
      simp [ran, Term.apply, below]
  rw [if_neg less, if_neg less]
  by_cases more : regMatch engine value regMore
  · rw [if_pos more, if_pos more, ran_push]
    by_cases above : toInt (regReplace engine value regMore (chars "$1") true true) intMin ≤ target <;>
      simp [ran, Term.apply, above]
  · rw [if_neg more, if_neg more]

theorem prepare_matches (range : Text) (target : Int) :
    (PreparedRangeMatcher.prepare engine range).matches target = matchRange engine range target := by
  have run := @List.foldl_hom _ _ _ (ran target) (preparePart engine) (matchPart engine target) (split range ',') ⟨[], [], []⟩
    fun state value => (ran_preparePart state value).symm
  exact (congrArg Scanning.result run).symm

end Ranges

section Rules

variable (engine : Jpcre2) {ρ : Type}

def groupidRegex : Text := chars "^!!(?:GROUPID|INSERT)=([\\d\\-+!,]+)(?:!!(.*))?$"

def groupRegex : Text := chars "^!!(?:GROUP)=(.+?)(?:!!(.*))?$"

def typeRegex : Text := chars "^!!(?:TYPE)=(.+?)(?:!!(.*))?$"

def portRegex : Text := chars "^!!(?:PORT)=(.+?)(?:!!(.*))?$"

def serverRegex : Text := chars "^!!(?:SERVER)=(.+?)(?:!!(.*))?$"

def types : List (ProxyType × Text) :=
  [(.shadowsocks, chars "SS"), (.shadowsocksR, chars "SSR"), (.vmess, chars "VMESS"), (.trojan, chars "TROJAN"),
    (.snell, chars "SNELL"), (.http, chars "HTTP"), (.https, chars "HTTPS"), (.socks5, chars "SOCKS5"),
    (.wireGuard, chars "WIREGUARD"), (.vless, chars "VLESS"), (.hysteria, chars "HYSTERIA"), (.hysteria2, chars "HYSTERIA2"),
    (.tuic, chars "TUIC"), (.anyTLS, chars "ANYTLS"), (.naive, chars "NAIVE"), (.mieru, chars "MIERU")]

/-- `types.at`, which throws where there is no name. -/
def typeAt (type : ProxyType) : Option Text := types.lookup type

-- An unsigned number as the int that a range is asked for.
def asInt (n : UInt32) : Int := n.toBitVec.toInt

def applyMatcher (rule : Text) (node : Proxy ρ) : Bool × Text :=
  if startsWith rule (chars "!!GROUP=") then
    let (target, realRule) := regGetMatch engine rule groupRegex ([], [])
    (regFind engine node.group target, realRule)
  else if startsWith rule (chars "!!GROUPID=") || startsWith rule (chars "!!INSERT=") then
    let dir : UInt32 := if startsWith rule (chars "!!INSERT=") then -1 else 1
    let (target, realRule) := regGetMatch engine rule groupidRegex ([], [])
    (matchRange engine target (asInt (dir * node.groupId)), realRule)
  else if startsWith rule (chars "!!TYPE=") then
    let (target, realRule) := regGetMatch engine rule typeRegex ([], [])
    if node.type = .unknown then (false, realRule) else (regMatch engine ((typeAt node.type).getD []) target, realRule)
  else if startsWith rule (chars "!!PORT=") then
    let (target, realRule) := regGetMatch engine rule portRegex ([], [])
    (matchRange engine target node.port.toNat, realRule)
  else if startsWith rule (chars "!!SERVER=") then
    let (target, realRule) := regGetMatch engine rule serverRegex ([], [])
    (regFind engine node.hostname target, realRule)
  else (true, rule)

inductive Kind where
  | plain
  | group
  | groupId
  | insert
  | type
  | port
  | server
deriving DecidableEq, Repr

structure PreparedGroupRule where
  kind : Kind := .plain
  realRule : Text := []
  selectorRegex : Option (CompiledRegex engine) := none
  rangeMatcher : Option PreparedRangeMatcher := none

def PreparedGroupRule.prepare (rule : Text) : PreparedGroupRule engine :=
  if startsWith rule (chars "!!GROUP=") then
    let (target, realRule) := regGetMatch engine rule groupRegex ([], [])
    { kind := .group, realRule := realRule, selectorRegex := some (CompiledRegex.compile engine target .search) }
  else if startsWith rule (chars "!!GROUPID=") || startsWith rule (chars "!!INSERT=") then
    let (target, realRule) := regGetMatch engine rule groupidRegex ([], [])
    { kind := if startsWith rule (chars "!!INSERT=") then .insert else .groupId
      realRule := realRule, rangeMatcher := some (PreparedRangeMatcher.prepare engine target) }
  else if startsWith rule (chars "!!TYPE=") then
    let (target, realRule) := regGetMatch engine rule typeRegex ([], [])
    { kind := .type, realRule := realRule, selectorRegex := some (CompiledRegex.compile engine target .fullMatch) }
  else if startsWith rule (chars "!!PORT=") then
    let (target, realRule) := regGetMatch engine rule portRegex ([], [])
    { kind := .port, realRule := realRule, rangeMatcher := some (PreparedRangeMatcher.prepare engine target) }
  else if startsWith rule (chars "!!SERVER=") then
    let (target, realRule) := regGetMatch engine rule serverRegex ([], [])
    { kind := .server, realRule := realRule, selectorRegex := some (CompiledRegex.compile engine target .search) }
  else { realRule := rule }

variable {engine}

def PreparedGroupRule.regexMatches (rule : PreparedGroupRule engine) (subject : Text) : Bool :=
  match rule.selectorRegex with
  | some regex => regex.matches subject
  | none => false

def PreparedGroupRule.rangeMatches (rule : PreparedGroupRule engine) (target : Int) : Bool :=
  match rule.rangeMatcher with
  | some matcher => matcher.matches target
  | none => false

def PreparedGroupRule.matchesSelector (rule : PreparedGroupRule engine) (node : Proxy ρ) : Bool :=
  match rule.kind with
  | .plain => true
  | .group => rule.regexMatches node.group
  | .groupId => rule.rangeMatches (asInt node.groupId)
  | .insert => rule.rangeMatches (asInt (-node.groupId))
  | .type => node.type ≠ .unknown && rule.regexMatches ((typeAt node.type).getD [])
  | .port => rule.rangeMatches node.port.toNat
  | .server => rule.regexMatches node.hostname

-- The expression for the remark is compiled at its first use and then kept.
def PreparedGroupRule.matches (rule : PreparedGroupRule engine) (node : Proxy ρ) : Bool :=
  if rule.matchesSelector node then
    if rule.realRule = [] then true else (CompiledRegex.compile engine rule.realRule .search).matches node.remark
  else false

theorem prepare_realRule (rule : Text) (node : Proxy ρ) :
    (PreparedGroupRule.prepare engine rule).realRule = (applyMatcher engine rule node).2 := by
  unfold PreparedGroupRule.prepare applyMatcher
  split
  next => rfl
  next =>
  split
  next => rfl
  next =>
  split
  next => by_cases unknown : node.type = .unknown <;> simp [unknown]
  next =>
  split
  next => rfl
  next =>
  split
  next => rfl
  next => rfl

theorem prepare_matchesSelector (rule : Text) (node : Proxy ρ) :
    (PreparedGroupRule.prepare engine rule).matchesSelector node = (applyMatcher engine rule node).1 := by
  unfold PreparedGroupRule.prepare applyMatcher
  split
  next => exact search_matches engine _ node.group
  next =>
  split
  next =>
    rw [PreparedGroupRule.matchesSelector]
    by_cases insert : startsWith rule (chars "!!INSERT=")
    · have turned : (-1 : UInt32) * node.groupId = -node.groupId := by rw [UInt32.neg_mul, UInt32.one_mul]
      simp [insert, turned, PreparedGroupRule.rangeMatches, prepare_matches]
    · simp [insert, PreparedGroupRule.rangeMatches, prepare_matches]
  next =>
  split
  next =>
    by_cases unknown : node.type = .unknown
    · simp [PreparedGroupRule.matchesSelector, unknown]
    · simp [PreparedGroupRule.matchesSelector, unknown, PreparedGroupRule.regexMatches, fullMatch_matches]
  next =>
  split
  next => exact prepare_matches _ _
  next =>
  split
  next => exact search_matches engine _ node.hostname
  next => rfl

theorem prepared_eq_direct (engine : Jpcre2) :
    (∀ range target, (PreparedRangeMatcher.prepare engine range).matches target = matchRange engine range target) ∧
    ∀ {ρ : Type} (rule : Text) (node : Proxy ρ), (PreparedGroupRule.prepare engine rule).matches node = true ↔
      (applyMatcher engine rule node).1 = true ∧
        ((applyMatcher engine rule node).2 = [] ∨ regFind engine node.remark (applyMatcher engine rule node).2 = true) := by
  refine ⟨prepare_matches, fun rule node => ?_⟩
  rw [PreparedGroupRule.matches, prepare_matchesSelector, prepare_realRule rule node, search_matches]
  cases (applyMatcher engine rule node).1 with
  | false => simp
  | true =>
    by_cases empty : (applyMatcher engine rule node).2 = []
    · simp [empty]
    · simp [empty]

end Rules

end SubConverter.Generator.NodeMatch
