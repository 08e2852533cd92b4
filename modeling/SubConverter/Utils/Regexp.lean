import SubConverter.Lib.Delimited

set_option autoImplicit false

namespace SubConverter.Utils

section Engine

inductive Pcre2Option where
  | anchored
  | endAnchored
  | utf
  | altBsux
  | multiline
deriving DecidableEq, Repr

/-- The expression library: what compiles, how often it is found, its groups for each match and the text with it replaced. -/
structure Jpcre2 where
  Regex : Type
  compile : (modifier : Text) → List Pcre2Option → (pattern : Text) → Option Regex
  count : Regex → (subject modifier : Text) → Nat
  substrings : Regex → (subject modifier : Text) → List (List Text)
  replaced : Regex → (subject replacement modifier : Text) → Text

variable (engine : Jpcre2)

inductive CompiledRegexMode where
  | search
  | fullMatch
deriving DecidableEq, Repr

def CompiledRegexMode.options : CompiledRegexMode → List Pcre2Option
  | .search => [.utf, .altBsux]
  | .fullMatch => [.anchored, .endAnchored, .utf]

structure CompiledRegex where
  regex : Option engine.Regex

def CompiledRegex.compile (pattern : Text) (mode : CompiledRegexMode) : CompiledRegex engine :=
  ⟨engine.compile (chars "m") mode.options pattern⟩

variable {engine} in
def CompiledRegex.matches (compiled : CompiledRegex engine) (subject : Text) : Bool :=
  match compiled.regex with
  | none => false
  | some regex => engine.count regex subject (chars "g") ≠ 0

def regMatch (src pattern : Text) : Bool :=
  match engine.compile (chars "m") [.anchored, .endAnchored, .utf] pattern with
  | none => false
  | some regex => engine.count regex src (chars "g") ≠ 0

def regFind (src pattern : Text) : Bool :=
  match engine.compile (chars "m") [.utf, .altBsux] pattern with
  | none => false
  | some regex => engine.count regex src (chars "g") ≠ 0

def regReplace (src pattern rep : Text) (isGlobal multiline : Bool) : Text :=
  match engine.compile (if multiline then chars "m" else []) [.utf, .multiline, .altBsux] pattern with
  | none => src
  | some regex => engine.replaced regex src rep (if isGlobal then chars "gEx" else chars "Ex")

def regGetAllMatch (src pattern : Text) (groupOnly : Bool) : List Text :=
  match engine.compile (chars "m") [.utf, .altBsux] pattern with
  | none => []
  | some regex => (engine.substrings regex src (chars "gm")).flatMap fun groups => groups.drop (if groupOnly then 1 else 0)

def regGetMatch (src pattern : Text) (buffers : Text × Text) : Text × Text :=
  let result := regGetAllMatch engine src pattern false
  (result[1]?.getD buffers.1, result[2]?.getD buffers.2)

theorem search_matches (pattern subject : Text) :
    (CompiledRegex.compile engine pattern .search).matches subject = regFind engine subject pattern := rfl

theorem fullMatch_matches (pattern subject : Text) :
    (CompiledRegex.compile engine pattern .fullMatch).matches subject = regMatch engine subject pattern := rfl

end Engine

end SubConverter.Utils
