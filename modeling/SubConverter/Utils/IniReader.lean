import SubConverter.Lib.Keyed
import SubConverter.Lib.Stripped
import SubConverter.Handler.SubRequestKey

set_option autoImplicit false

namespace SubConverter.Utils.IniReader

open Handler (isSpace trim getLineBreak)

section Lines

-- Every character stands for one byte.
-- `getline` gives no empty line behind the last delimiter.
def linesOf (content : Text) : List Text :=
  let parts := content.splitOn (getLineBreak content)
  if parts.getLast? = some [] then parts.dropLast else parts

def processEscapeChar : Text → Text
  | [] => []
  | '\\' :: 'n' :: rest => '\n' :: processEscapeChar rest
  | '\\' :: 'r' :: rest => '\r' :: processEscapeChar rest
  | '\\' :: 't' :: rest => '\t' :: processEscapeChar rest
  | c :: rest => c :: processEscapeChar rest

def isComment (line : Text) : Bool :=
  line = [] || line.head? = some ';' || line.head? = some '#' || (chars "//").isPrefixOf line

-- The length is that of the line before its escapes were replaced; a place behind the end holds no bracket.
def isTitle (line : Text) (lineSize : Nat) : Bool := line.head? = some '[' && (line.drop (lineSize - 1)).head? = some ']'

end Lines

section Parse

abbrev Items := List (Text × Text)

structure Options where
  storeAnyLine : Bool := false
  storeIsolatedLine : Bool := false
  allowDupSectionTitles : Bool := false
  keepEmptySection : Bool := true
  excludeSections : List Text := []
  includeSections : List Text := []
  directSaveSections : List Text := []
  isolatedItemsSection : Text := []

inductive ReadError where
  | empty
  | duplicate
  | outOfBound
deriving DecidableEq, Repr

/-- The members that `parse` fills. The items of a section stand in the order in which they were inserted. -/
structure Stored where
  iniContent : List (Text × Items) := []
  sectionOrder : List Text := []
  readSections : List Text := []
deriving DecidableEq, Repr

/-- The local variables of `parse`. -/
structure Reader where
  stored : Stored := {}
  thisSection : Text := []
  curSection : Text := []
  itemGroup : Items := []
  inExcludedSection : Bool := false
  inDirectSaveSection : Bool := false
  inIsolatedSection : Bool := false

variable (o : Options)

def chkIgnore (name : Text) : Bool := name ∈ o.excludeSections || (o.includeSections ≠ [] && name ∉ o.includeSections)

def chkDirectSave (name : Text) : Bool := name ∈ o.directSaveSections

def Stored.insert (s : Stored) (name : Text) (group : Items) : Stored where
  readSections := if group ≠ [] then s.readSections ++ [name] else s.readSections
  sectionOrder := if name ∈ s.sectionOrder then s.sectionOrder else s.sectionOrder ++ [name]
  iniContent := Keyed.put name group s.iniContent

def finished (name : Text) (group : Items) : Bool := name ≠ [] && (o.keepEmptySection || group ≠ [])

-- At a title: what is merged goes into a copy of the section.
def Stored.close (s : Stored) (name : Text) (group : Items) (isolated : Bool) (next : Text) : Except ReadError Stored :=
  if !finished o name group then .ok s
  else
    match Keyed.find name s.iniContent with
    | some existing => if o.allowDupSectionTitles ∨ existing = [] then .ok s else .error .duplicate
    | none => if !isolated ∨ o.isolatedItemsSection ≠ next then .ok (s.insert name group) else .ok s

-- Behind the last line: what is merged goes into the section itself.
def Stored.closeLast (s : Stored) (name : Text) (group : Items) (isolated : Bool) (last : Text) : Except ReadError Stored :=
  if !finished o name group then .ok s
  else
    match Keyed.find name s.iniContent with
    | some existing =>
      if o.allowDupSectionTitles ∨ o.isolatedItemsSection = last then
        .ok { s with iniContent := Keyed.put name (existing ++ group) s.iniContent }
      else if existing ≠ [] then .error .duplicate
      else .ok s
    | none => if !isolated ∨ o.isolatedItemsSection ≠ last then .ok (s.insert name group) else .ok s

def readLine (r : Reader) (raw : Text) : Except ReadError (Reader × Bool) := do
  let strLine := raw.rdropWhile isSpace
  let lineSize := strLine.length
  let posEqual := strLine.idxOf? '='
  if isComment strLine ∧ !r.inDirectSaveSection then return (r, false)
  else
    let strLine := processEscapeChar strLine
    if isTitle strLine lineSize then
      let thisSection := (strLine.drop 1).take (lineSize - 2)
      let stored ← r.stored.close o r.curSection r.itemGroup r.inIsolatedSection thisSection
      return ({ stored := stored, thisSection := thisSection, curSection := thisSection, itemGroup := [],
                inExcludedSection := chkIgnore o thisSection, inDirectSaveSection := chkDirectSave o thisSection,
                inIsolatedSection := false }, true)
    else if ((o.storeAnyLine ∧ posEqual = none) ∨ r.inDirectSaveSection) ∧ !r.inExcludedSection ∧ r.curSection ≠ [] then
      return ({ r with itemGroup := r.itemGroup ++ [(chars "\x7bNONAME\x7d", strLine)] }, true)
    else
      match posEqual with
      | none => return (r, true)
      | some pos =>
        if r.inExcludedSection then return (r, false)
        else if r.curSection = [] then .error .outOfBound
        else
          let item := (trim (strLine.take pos), (strLine.drop (pos + 1)).dropWhile fun c => c = ' ')
          return ({ r with itemGroup := r.itemGroup ++ [item] }, true)

def allIncluded (s : Stored) : Bool := o.includeSections ≠ [] && o.includeSections = s.readSections

def readLines : Reader → List Text → Except ReadError Stored
  | r, [] => r.stored.closeLast o r.curSection r.itemGroup r.inIsolatedSection r.thisSection
  | r, line :: rest => do
    let (r, checked) ← readLine o r line
    if checked ∧ allIncluded o r.stored then r.stored.closeLast o r.curSection r.itemGroup r.inIsolatedSection r.thisSection
    else readLines r rest

def startReader : Reader :=
  if o.storeIsolatedLine ∧ o.isolatedItemsSection ≠ [] then
    { curSection := o.isolatedItemsSection, inExcludedSection := chkIgnore o o.isolatedItemsSection,
      inDirectSaveSection := chkDirectSave o o.isolatedItemsSection, inIsolatedSection := true }
  else {}

def withoutBom (content : Text) : Text := if (chars "\xef\xbb\xbf").isPrefixOf content then content.drop 3 else content

def parse (content : Text) : Except ReadError Stored :=
  if content = [] then .error .empty else readLines o (startReader o) (linesOf (withoutBom content))

example : (parse { allowDupSectionTitles := true } (chars "[a]\nk = 1 \n;x\n[b]\n[a]\nl=\\t2\n")).toOption.map Stored.iniContent =
    some [(['a'], [(['k'], ['1']), (['l'], ['\t', '2'])]), (['b'], [])] := by
  decide

end Parse

end SubConverter.Utils.IniReader
