import SubConverter.Lib.Cursor
import SubConverter.Lib.Places
import SubConverter.Lib.RewriteLoops
import SubConverter.Utils.RedactSecrets

set_option autoImplicit false

namespace SubConverter.Utils.RedactLoops

open Handler (toLower startsWith split)
open Redact (isUrlTerminator isLineBreak sensitiveParameter structuredKeyCharacter endsParameter replacement structuredKey
  insideStructuredContainerOnLine headerBoundary headerNames userMarker urlSchemes urlScheme opaqueSecretScheme withoutUserinfo
  redactQuery)
open Loops
open Places

section Texts

variable (text : Text) (position : Nat)

def find (character : Char) : Option Nat := findFrom (fun behind => behind.head? = some character) text position

def findText (part : Text) : Option Nat := findFrom (fun behind => part.isPrefixOf behind) text position

def findLineBreak : Option Nat := findFrom (fun behind => behind.head?.any isLineBreak) text position

def rfind (character : Char) : Option Nat := lastIdxOf character (text.take (position + 1))

structure Scan where
  text : Text
  position : Nat

structure LowerScan where
  text : Text
  lower : Text
  position : Nat

def nearest (best : Option (Nat × Text)) (name : Text) (candidate : Option Nat) : Option (Nat × Text) :=
  match candidate with
  | none => best
  | some place => if best.all fun found => place < found.1 then some (place, name) else best

end Texts

section Headers

-- A turn of the loop over the candidates for one name.
def nextCandidate (text lower name : Text) (candidate : Option Nat) : Fueled (Turn (Option Nat) (Option Nat)) :=
  match candidate with
  | none => pure (.done none)
  | some place =>
    if headerBoundary (lower.take place) ∧ !insideStructuredContainerOnLine (text.take place) then pure (.done (some place))
    else pure (.again (findText lower (place + 1) (name ++ [':'])))

structure FoldedLines where
  valueEnd : Nat
  nextLine : Nat

-- `if (text[place] == mark) ++place`
def skipMark (text : Text) (mark : Char) (place : Nat) : Nat := if text[place]? = some mark then place + 1 else place

def nextFolded (text : Text) (s : FoldedLines) : Fueled (Turn FoldedLines Nat) :=
  if text.length ≤ s.nextLine then pure (.done s.valueEnd)
  else
    let nextLine := skipMark text '\n' (skipMark text '\r' s.nextLine)
    if text[nextLine]? = some ' ' ∨ text[nextLine]? = some '\t' then
      match findLineBreak text nextLine with
      | none => pure (.done text.length)
      | some valueEnd => pure (.again ⟨valueEnd, valueEnd⟩)
    else pure (.done s.valueEnd)

def headerEnd (text : Text) (valueStart : Nat) : Fueled Nat :=
  match findLineBreak text valueStart with
  | none => pure text.length
  | some valueEnd => loop (nextFolded text) ⟨valueEnd, valueEnd⟩

-- A turn of the loop of `redactHeaders`.
def nextHeader (s : LowerScan) : Fueled (Turn LowerScan Text) :=
  if s.text.length ≤ s.position then pure (.done s.text)
  else do
    let header ← headerNames.foldlM
      (fun best name => do
        let candidate ← loop (nextCandidate s.text s.lower name) (findText s.lower s.position (name ++ [':']))
        pure (nearest best name candidate))
      none
    match header with
    | none => pure (.done s.text)
    | some (headerStart, matchedName) =>
      let colon := headerStart + matchedName.length
      let valueEnd ← headerEnd s.text (colon + 1)
      let text ← replaceAt s.text (colon + 1) (valueEnd - colon - 1) (chars " <redacted>")
      let lower ← replaceAt s.lower (colon + 1) (valueEnd - colon - 1) (toLower (chars " <redacted>"))
      pure (.again ⟨text, lower, colon + 1 + (chars " <redacted>").length⟩)

def redactHeaders (text : Text) : Fueled Text := loop nextHeader ⟨text, toLower text, 0⟩

end Headers

section Parameters

-- A turn of the loop of `redactNamedParameters`.
def nextParameter (s : Scan) : Fueled (Turn Scan Text) :=
  match find s.text s.position '=' with
  | none => pure (.done s.text)
  | some equals =>
    let name := (s.text.take equals).rtakeWhile structuredKeyCharacter
    if !sensitiveParameter name then pure (.again ⟨s.text, equals + 1⟩)
    else do
      let value := (s.text.drop (equals + 1)).takeWhile fun c => !endsParameter c
      let text ← replaceAt s.text (equals + 1) value.length replacement
      pure (.again ⟨text, equals + (replacement.length + 1)⟩)

def redactNamedParameters (text : Text) : Fueled Text := loop nextParameter ⟨text, 0⟩

end Parameters

section Fields

def escapedQuote (text : Text) (position : Nat) : Bool := ((text.take position).rtakeWhile fun c => c = '\\').length % 2 ≠ 0

-- A turn of the loop of `quotedValueEnd`.
def nextQuote (text : Text) (quote : Char) (position : Nat) : Fueled (Turn Nat (Option Nat)) :=
  match find text position quote with
  | none => pure (.done none)
  | some place => if !escapedQuote text place then pure (.done (some place)) else pure (.again (place + 1))

def quotedValueEnd (text : Text) (quoteStart : Nat) (quote : Char) : Fueled Nat := do
  let valueEnd ← loop (nextQuote text quote) (quoteStart + 1)
  pure ((valueEnd.or (findLineBreak text (quoteStart + 1))).getD text.length)

/-- The variables of the loop of `yamlBlockValueEnd`. -/
structure BlockLines where
  blockEnd : Nat
  lineStart : Nat

-- By its content and the blanks in front of it.
def leavesBlock (keyIndent : Nat) (line : Text) : Bool :=
  let content := if line.getLast? = some '\r' then line.dropLast else line
  let indent := content.takeWhile fun c => c = ' ' ∨ c = '\t'
  indent ≠ content && indent.length ≤ keyIndent

-- A turn of the loop of `yamlBlockValueEnd`.
def nextBlockLine (text : Text) (keyIndent : Nat) (s : BlockLines) : Fueled (Turn BlockLines Nat) :=
  if text.length ≤ s.lineStart then pure (.done s.blockEnd)
  else
    let lineEnd := find text s.lineStart '\n'
    let physicalEnd := lineEnd.getD text.length
    let line := (text.drop s.lineStart).take (physicalEnd - s.lineStart)
    if leavesBlock keyIndent line then pure (.done s.blockEnd)
    else
      match lineEnd with
      | none => pure (.done text.length)
      | some lineEnd => pure (.again ⟨physicalEnd, lineEnd + 1⟩)

def yamlBlockValueEnd (text : Text) (keyStart valueStart : Nat) : Fueled Nat :=
  let keyIndent := ((text.take keyStart).rtakeWhile fun c => c ≠ '\n').length
  match find text valueStart '\n' with
  | none => pure text.length
  | some lineEnd => loop (nextBlockLine text keyIndent) ⟨lineEnd, lineEnd + 1⟩

def valueEndOf (text : Text) (keyStart valueStart : Nat) (first : Char) : Fueled Nat :=
  if first = '\'' ∨ first = '"' then quotedValueEnd text valueStart first
  else if first = '\x7b' then pure (text.length - (Redact.compositeValueEnd '\x7d' (text.drop valueStart)).length)
  else if first = '[' then pure (text.length - (Redact.compositeValueEnd ']' (text.drop valueStart)).length)
  else if first = '|' ∨ first = '>' then yamlBlockValueEnd text keyStart valueStart
  else
    let plain := (text.drop valueStart).takeWhile fun c => !(isLineBreak c || c ∈ [',', '\x7d', ']', '#'])
    pure (valueStart + (plain.rdropWhile Handler.isSpace).length)

-- A turn of the loop of `redactStructuredFields`.
def nextField (s : Scan) : Fueled (Turn Scan Text) :=
  match find s.text s.position ':' with
  | none => pure (.done s.text)
  | some colon =>
    let key := structuredKey (s.text.take colon)
    if !sensitiveParameter key.2 then pure (.again ⟨s.text, colon + 1⟩)
    else
      let blanks := (s.text.drop (colon + 1)).takeWhile fun c => c = ' ' ∨ c = '\t'
      let valueStart := colon + 1 + blanks.length
      match s.text[valueStart]? with
      | none => pure (.again ⟨s.text, valueStart⟩)
      | some first =>
        if isLineBreak first then pure (.again ⟨s.text, valueStart⟩)
        else do
          let replaceStart := if first = '\'' ∨ first = '"' then valueStart + 1 else valueStart
          let valueEnd ← valueEndOf s.text key.1.length valueStart first
          let text ← replaceAt s.text replaceStart (valueEnd - replaceStart) replacement
          pure (.again ⟨text, replaceStart + replacement.length⟩)

def redactStructuredFields (text : Text) : Fueled Text := loop nextField ⟨text, 0⟩

end Fields

section Logs

-- A turn of the loop of `redactCurlAuthUser`.
def nextAuthUser (s : LowerScan) : Fueled (Turn LowerScan Text) :=
  match findText s.lower s.position userMarker with
  | none => pure (.done s.text)
  | some markerStart => do
    let valueStart := markerStart + userMarker.length
    let scopeEnd := (findText s.lower valueStart userMarker).getD s.text.length
    let quote := if scopeEnd = 0 then none else rfind s.text (scopeEnd - 1) '\''
    let valueEnd := (quote.filter fun place => valueStart ≤ place).getD scopeEnd
    let text ← replaceAt s.text valueStart (valueEnd - valueStart) replacement
    let lower ← replaceAt s.lower valueStart (valueEnd - valueStart) replacement
    pure (.again ⟨text, lower, valueStart + replacement.length⟩)

def redactCurlAuthUser (text : Text) : Fueled Text := loop nextAuthUser ⟨text, toLower text, 0⟩

def redactUrl (url : Text) : Fueled Text :=
  let scheme := urlScheme url
  if opaqueSecretScheme scheme then pure (scheme ++ chars "://<redacted>")
  else
    match cutAt (chars "://") url with
    | none => redactNamedParameters url
    | some (front, behind) =>
      let address := withoutUserinfo front behind
      if (scheme = chars "http" ∨ scheme = chars "https") ∧ address.2 ≠ [] then pure (address.1 ++ chars "/<redacted>")
      else
        match cutAt ['?'] (address.1 ++ address.2) with
        | none => pure (address.1 ++ address.2)
        | some (address, query) =>
          redactNamedParameters (address ++ '?' :: redactQuery (query.takeWhile fun c => c ≠ '#') ++
            query.dropWhile fun c => c ≠ '#')

-- A turn of the loop of `redactSensitiveLogText`.
def nextUrl (s : LowerScan) : Fueled (Turn LowerScan Text) :=
  if s.text.length ≤ s.position then pure (.done s.text)
  else
    let start := urlSchemes.foldl (fun best scheme => nearest best scheme (findText s.lower s.position scheme)) none
    match start with
    | none => pure (.done s.text)
    | some (start, _) => do
      let url := (s.text.drop start).takeWhile fun c => !isUrlTerminator c
      let redacted ← redactUrl url
      let text ← replaceAt s.text start url.length redacted
      let lower ← replaceAt s.lower start url.length (toLower redacted)
      pure (.again ⟨text, lower, start + redacted.length⟩)

def redactSensitiveLogText (text : Text) : Fueled Text := do
  let headers ← redactHeaders text
  let parameters ← redactNamedParameters headers
  let fields ← redactStructuredFields parameters
  let result ← redactCurlAuthUser fields
  loop nextUrl ⟨result, toLower result, 0⟩

end Logs

end SubConverter.Utils.RedactLoops
