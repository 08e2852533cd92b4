import SubConverter.Lib.Stripped
import SubConverter.Lib.Keyed
import SubConverter.Lib.Interleaving
import SubConverter.Bridge.GoText

set_option autoImplicit false

namespace SubConverter.Handler.ShortLinks

open Wire (Bytes)
open Bridge (ascii)

section Urls

def kMaxUrlLength : Nat := 256 * 1024
def kMaxNameLength : Nat := 160
def kCodeLength : Nat := 8
def kDefaultMaxEntries : Nat := 500
def kCodeAlphabet : Bytes := ascii "abcdefghijkmnopqrstuvwxyzABCDEFGHJKLMNPQRSTUVWXYZ23456789"

def hasQueryParam (query name : Bytes) : Bool :=
  (query.splitOn 0x26).any fun part => (cutAt (ascii "=") part).any fun entry => entry.1 = name

-- From the first slash behind the scheme, where there is one.
def pathOf (beforeQuery : Bytes) : Bytes :=
  match cutAt (ascii "://") beforeQuery with
  | none => beforeQuery
  | some (_, rest) => rest.dropWhile fun byte => byte ≠ 0x2f

def extractSubQuery (url : Bytes) : Option Bytes := do
  if url = [] ∨ kMaxUrlLength < url.length then none
  else
    let (beforeQuery, query) ← cutAt (ascii "?") url
    if query = [] ∨ pathOf beforeQuery ≠ ascii "/sub" then none
    else if !hasQueryParam query (ascii "target") ∨ !hasQueryParam query (ascii "url") then none
    else some query

def validCode (code : Bytes) : Bool := code.length = kCodeLength && code.all fun ch => ch ∈ kCodeAlphabet

def trimName (name : Bytes) : Bytes := if name.length ≤ kMaxNameLength then name else name.take kMaxNameLength

def shortLinkSubTarget (url : Bytes) : Option Bytes := (extractSubQuery url).map fun query => ascii "/sub?" ++ query

-- The number that the variable holds, where `strtoul` reads all of it.
def configuredMaxEntries : Option Nat → Nat
  | none => kDefaultMaxEntries
  | some 0 => kDefaultMaxEntries
  | some (parsed + 1) => parsed + 1

end Urls

section Records

structure ShortLinkRecord where
  code : Bytes
  url : Bytes
  name : Bytes := []
  createdAt : UInt64 := 0
  lastAccessAt : UInt64 := 0
  updatedAt : UInt64 := 0
deriving DecidableEq, Repr

abbrev Records := List (Bytes × ShortLinkRecord)

def retentionTime (record : ShortLinkRecord) : UInt64 := if record.lastAccessAt ≠ 0 then record.lastAccessAt else record.createdAt

def candidateLe (left right : Bytes × UInt64) : Bool :=
  if left.2 ≠ right.2 then left.2 < right.2 else left.1 ≤ right.1

def candidates (records : Records) : List (Bytes × UInt64) :=
  (records.map fun entry => (entry.1, retentionTime entry.2)).insertionSort fun left right => candidateLe left right

def pruned (maxEntries : Nat) (records : Records) : List Bytes :=
  ((candidates records).take (records.length - maxEntries)).map Prod.fst

def pruneLocked (maxEntries : Nat) (records : Records) : Records :=
  if maxEntries = 0 ∨ records.length ≤ maxEntries then records
  else records.filter fun entry => entry.1 ∉ pruned maxEntries records

abbrev Draws := Nat → Nat → Fin kCodeAlphabet.length

def drawnCode (draws : Draws) (attempt : Nat) : Bytes := (List.range kCodeLength).map fun index => kCodeAlphabet.get (draws attempt index)

def makeCodeLocked (draws : Draws) (records : Records) : Option Bytes :=
  ((List.range 128).map (drawnCode draws)).find? fun code => code ∉ records.map Prod.fst

end Records

section Files

inductive JsonValue where
  | string (text : Bytes)
  | uint64 (n : UInt64)
  | other
deriving DecidableEq, Repr

-- An object with the members that are objects themselves, and `none` for the others.
abbrev Document := List (Bytes × Option (List (Bytes × JsonValue)))

-- A C string ends at its first zero byte.
def cString (text : Bytes) : Bytes := text.takeWhile fun byte => byte ≠ 0

def valueUint64 : Option JsonValue → UInt64
  | some (.uint64 n) => n
  | _ => 0

def nameOf : Option JsonValue → Bytes
  | some (.string text) => trimName (cString text)
  | _ => []

def loadRecord (member : Bytes × Option (List (Bytes × JsonValue))) : Option (Bytes × ShortLinkRecord) := do
  let code := cString member.1
  let value ← member.2
  match Keyed.find (ascii "url") value with
  | some (.string text) =>
    let url := cString text
    if !validCode code ∨ extractSubQuery url = none then none
    else
      return (code,
        { code := code, url := url, name := nameOf (Keyed.find (ascii "name") value),
          createdAt := valueUint64 (Keyed.find (ascii "created_at") value),
          lastAccessAt := valueUint64 (Keyed.find (ascii "last_access_at") value),
          updatedAt := valueUint64 (Keyed.find (ascii "updated_at") value) })
  | _ => none

-- A file that is missing, empty or no object has no records.
def readRecords (file : Option Document) : Records :=
  ((file.getD []).filterMap loadRecord).foldl (fun records entry => Keyed.put entry.1 entry.2 records) []

def writeRecord (entry : Bytes × ShortLinkRecord) : Bytes × Option (List (Bytes × JsonValue)) :=
  (cString entry.1,
    some [(ascii "url", .string (cString entry.2.url)), (ascii "name", .string (cString entry.2.name)),
      (ascii "created_at", .uint64 entry.2.createdAt), (ascii "last_access_at", .uint64 entry.2.lastAccessAt),
      (ascii "updated_at", .uint64 entry.2.updatedAt)])

def writeRecords (records : Records) : Document := records.map writeRecord

end Files

section Operations

/-- What the process keeps, and the file as the JSON library reads it. -/
structure Store where
  loaded : Bool := false
  records : Records := []
  file : Option Document := none

-- A failed write may leave anything in the file.
inductive WriteOutcome where
  | committed
  | failed (left : Option Document)

def Store.loadLocked (s : Store) : Store := if s.loaded then s else { s with loaded := true, records := readRecords s.file }

def Store.saveLocked (s : Store) : WriteOutcome → Bool × Store
  | .committed => (true, { s with file := some (writeRecords s.records) })
  | .failed left => (false, { s with file := left })

structure ShortLinkResult where
  ok : Bool := false
  code : Bytes := []
  path : Bytes := []
  error : Bytes := []
  record : Option ShortLinkRecord := none
deriving DecidableEq, Repr

def answered (code : Bytes) : ShortLinkResult := { ok := true, code := code, path := ascii "/s?id=" ++ code }

def refused (error : String) : ShortLinkResult := { error := ascii error }

variable (outcome : WriteOutcome)

-- The rest of `createShortLink`, once there is a code.
def storeRecord (record : ShortLinkRecord) (maxEntries : Nat) (s : Store) : ShortLinkResult × Store :=
  let s := { s with records := pruneLocked maxEntries (Keyed.put record.code record s.records) }
  if record.code ∉ s.records.map Prod.fst then (refused "code-exhausted", s)
  else
    match s.saveLocked outcome with
    | (false, s) => (refused "storage-unavailable", { s with records := Keyed.erase record.code s.records })
    | (true, s) => (answered record.code, s)

def createShortLink (url name : Bytes) (nowMs : UInt64) (draws : Draws) (maxEntries : Nat) (s : Store) : ShortLinkResult × Store :=
  if extractSubQuery url = none then (refused "invalid-url", s)
  else
    let s := s.loadLocked
    match s.records.find? fun entry => entry.2.url = url with
    | some (code, _) => (answered code, s)
    | none =>
      match makeCodeLocked draws s.records with
      | none => (refused "code-exhausted", s)
      | some code =>
        storeRecord outcome
          { code := code, url := url, name := trimName name, createdAt := nowMs, lastAccessAt := 0, updatedAt := nowMs } maxEntries s

def updateShortLink (code url name : Bytes) (hasName : Bool) (nowMs : UInt64) (s : Store) : ShortLinkResult × Store :=
  if !validCode code then (refused "not-found", s)
  else if extractSubQuery url = none then (refused "invalid-url", s)
  else
    let s := s.loadLocked
    match Keyed.find code s.records with
    | none => (refused "not-found", s)
    | some previous =>
      let changed := { previous with
        url := url, name := if hasName then trimName name else previous.name, updatedAt := nowMs }
      match { s with records := Keyed.put code changed s.records }.saveLocked outcome with
      | (false, s) => (refused "storage-unavailable", { s with records := Keyed.put code previous s.records })
      | (true, s) => (answered code, s)

def deleteShortLink (code : Bytes) (s : Store) : Bool × Store :=
  if !validCode code then (false, s)
  else
    let s := s.loadLocked
    if code ∉ s.records.map Prod.fst then (false, s)
    else { s with records := Keyed.erase code s.records }.saveLocked outcome

def pruneShortLinks (maxEntries : Nat) (s : Store) : Store :=
  let s := s.loadLocked
  ({ s with records := pruneLocked maxEntries s.records }.saveLocked outcome).2

def resolveShortLink (code : Bytes) (nowMs : UInt64) (s : Store) : ShortLinkResult × Store :=
  if !validCode code then (refused "not-found", s)
  else
    let s := s.loadLocked
    match Keyed.find code s.records with
    | none => (refused "not-found", s)
    | some record =>
      let record := { record with lastAccessAt := nowMs }
      ({ ok := true, record := some record }, ({ s with records := Keyed.put code record s.records }.saveLocked outcome).2)

end Operations

end SubConverter.Handler.ShortLinks
