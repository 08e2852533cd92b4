import SubConverter.Handler.Addresses

set_option autoImplicit false

namespace SubConverter.Server

open Handler (Address parseAddress trimWhitespace toLower)

def kMaxForwardedHops : Nat := 16

section Quotes

/-- A text on its way through `splitQuoted`. -/
structure QuotedScan where
  parts : List Text := []
  part : Text := []
  quoted : Bool := false
  escaped : Bool := false
deriving DecidableEq, Repr

-- Escapes stand only inside quotes; a quote may open anywhere.
def QuotedScan.push (delimiter : Char) (scan : QuotedScan) (c : Char) : QuotedScan :=
  if scan.escaped then { scan with part := scan.part ++ [c], escaped := false }
  else if scan.quoted && c = '\\' then { scan with part := scan.part ++ [c], escaped := true }
  else if c = '\x22' then { scan with part := scan.part ++ [c], quoted := !scan.quoted }
  else if !scan.quoted && c = delimiter then { scan with parts := scan.parts ++ [trimWhitespace scan.part], part := [] }
  else { scan with part := scan.part ++ [c] }

def QuotedScan.close (scan : QuotedScan) : Option (List Text) :=
  if scan.quoted || scan.escaped then none else some (scan.parts ++ [trimWhitespace scan.part])

def splitQuoted (input : Text) (delimiter : Char) : Option (List Text) :=
  (input.foldl (QuotedScan.push delimiter) {}).close

def unquoteInner : Text → Option Text
  | [] => some []
  | c :: rest =>
    if c = '\\' then
      match rest with
      | [] => none
      | escaped :: rest => (unquoteInner rest).map fun text => escaped :: text
    else if c = '\x22' then none
    else (unquoteInner rest).map fun text => c :: text

def unquote (value : Text) : Option Text :=
  if value.length < 2 ∨ value.head? ≠ some '\x22' ∨ value.getLast? ≠ some '\x22' then
    if '\x22' ∈ value then none else some value
  else unquoteInner (value.drop 1).dropLast

end Quotes

section Nodes

def portFrom (port : Nat) : Text → Bool
  | [] => port ≠ 0
  | c :: rest =>
    if c < '0' ∨ '9' < c then false
    else if 65535 < port * 10 + (c.toNat - 48) then false
    else portFrom (port * 10 + (c.toNat - 48)) rest

def parsePort (value : Text) : Bool := value ≠ [] && portFrom 0 value

def bracketedNode (value : Text) : Option Address :=
  match cutAt [']'] value with
  | none => none
  | some (host, behind) =>
    if behind ≠ [] ∧ (behind.head? ≠ some ':' ∨ parsePort (behind.drop 1) = false) then none else parseAddress (host.drop 1)

def parseForwardedNode (raw : Text) : Option Address :=
  match unquote (trimWhitespace raw) with
  | none => none
  | some value =>
    if value = [] ∨ value.head? = some '_' ∨ toLower value = chars "unknown" then none
    else if value.head? = some '[' then bracketedNode value
    else
      match parseAddress value with
      | some direct => some direct
      | none =>
        match cutAt [':'] value with
        | none => none
        | some (host, port) => if ':' ∈ port ∨ parsePort port = false then none else parseAddress host

end Nodes

section Lists

/-- The one `for` parameter of an element. -/
def forParameter (found : Option Address) : List Text → Option Address
  | [] => found
  | parameter :: rest =>
    match cutAt ['='] parameter with
    | none => none
    | some (name, value) =>
      if toLower (trimWhitespace name) ≠ chars "for" then forParameter found rest
      else if found.isSome then none
      else
        match parseForwardedNode value with
        | none => none
        | some address => forParameter (some address) rest

def forwardedElement (element : Text) : Option Address :=
  if element = [] then none else (splitQuoted element ';').bind (forParameter none)

def parseForwarded (value : Text) : Option (List Address) :=
  match splitQuoted value ',' with
  | none => none
  | some elements => if elements = [] ∨ kMaxForwardedHops < elements.length then none else elements.mapM forwardedElement

-- The addresses so far, and the texts that the commas cut off.
def forwardedForFrom (addresses : List Address) : List Text → Option (List Address)
  | [] => some addresses
  | text :: rest =>
    match parseAddress text with
    | none => none
    | some address =>
      if kMaxForwardedHops < addresses.length + 1 then none else forwardedForFrom (addresses ++ [address]) rest

def parseXForwardedFor (value : Text) : Option (List Address) := forwardedForFrom [] (value.splitOn ',')

end Lists

end SubConverter.Server
