import SubConverter.Lib.FreshName
import SubConverter.Lib.Stripped
import SubConverter.Handler.TaggedLink
import SubConverter.Handler.FetchGate

set_option autoImplicit false

namespace SubConverter.Handler

section Names

def toUpper (text : Text) : Text := text.map Char.toUpper

def utf8Due : Nat → Text → Bool
  | due, [] => due = 0
  | due, c :: rest =>
    let byte := c.toNat
    if byte = 0 then due = 0
    else
      match due with
      | 0 =>
        if byte < 0x80 then utf8Due 0 rest
        else if 0xfc ≤ byte ∧ byte ≤ 0xfd then utf8Due 5 rest
        else if 0xf8 ≤ byte then utf8Due 4 rest
        else if 0xf0 ≤ byte then utf8Due 3 rest
        else if 0xe0 ≤ byte then utf8Due 2 rest
        else if 0xc0 ≤ byte then utf8Due 1 rest
        else false
      | due + 1 => if byte &&& 0xc0 = 0x80 then utf8Due due rest else false

def isStrUTF8 (text : Text) : Bool := utf8Due 0 text

def dropToUTF8 : Nat → Text → Text
  | 0, text => text
  | rounds + 1, text => if text ≠ [] ∧ !isStrUTF8 text then dropToUTF8 rounds text.dropLast else text

def clampProviderNameLength (name : Text) (maxLen : Nat) : Text :=
  if name.length ≤ maxLen then name else dropToUTF8 maxLen (name.take maxLen)

def kProviderNameMaxLen : Nat := 64

def reservedNames : List Text :=
  [chars "CON", chars "PRN", chars "AUX", chars "NUL"] ++
    ((chars "123456789").flatMap fun digit => [chars "COM" ++ [digit], chars "LPT" ++ [digit]])

def isWindowsReservedName (name : Text) : Bool :=
  let trimmed := trimOf (strip isSpace name) '.'
  name ≠ [] && trimmed ≠ [] && (toUpper trimmed).takeWhile (· ≠ '.') ∈ reservedNames

def invalidNameChar (c : Char) : Bool :=
  c.toNat < 0x20 || c.toNat = 0x7f || c ∈ ['<', '>', ':', '\x22', '/', '\\', '|', '?', '*', '_']

-- The last byte that was put out decides about a run of dots or underscores.
def cleanName : Char → Text → Text
  | _, [] => []
  | last, c :: rest =>
    if invalidNameChar c || (c = '.' && last = '.') then
      if last = '_' then cleanName last rest else '_' :: cleanName '_' rest
    else c :: cleanName c rest

def sanitizeProviderName (input : Text) : Text :=
  let cleaned := trimOf (strip isSpace (cleanName '\x00' (strip isSpace input))) '.'
  if cleaned = [] ∨ isWindowsReservedName cleaned then []
  else
    let clamped := trimOf (clampProviderNameLength cleaned kProviderNameMaxLen) '.'
    if clamped = [] ∨ isWindowsReservedName clamped then [] else clamped

def sanitizeRemoteResourceName (input : Text) : Text :=
  strip isSpace ((sanitizeProviderName input).map fun c => if c = ',' ∨ c = '=' then '_' else c)

theorem length_clampProviderNameLength_le (name : Text) (maxLen : Nat) : (clampProviderNameLength name maxLen).length ≤ maxLen := by
  have shorter : ∀ rounds (text : Text), (dropToUTF8 rounds text).length ≤ text.length := by
    intro rounds
    induction rounds with
    | zero => exact fun text => le_rfl
    | succ rounds ih =>
      intro text
      rw [dropToUTF8]
      split
      · exact (ih text.dropLast).trans (by simp)
      · exact le_rfl
  unfold clampProviderNameLength
  split
  · assumption
  · exact (shorter maxLen _).trans (List.length_take_le maxLen name)

theorem length_trimOf_le (text : Text) (target : Char) : (trimOf text target).length ≤ text.length := by
  unfold trimOf
  split
  · exact le_rfl
  · exact length_strip_le _ text

example : sanitizeProviderName (chars " a/../b_ ") = chars "a_._b_" := by decide

end Names

section Reservation

def numbered (name : Text) (number : Nat) : Text := name ++ '_' :: decimal number

def suffixed (maxLen : Nat) (name : Text) (number : Nat) : Text :=
  let room := maxLen - ('_' :: decimal number).length
  numbered (clampProviderNameLength name room) number

def reserveName (key : Text → Text) (candidate : Nat → Text) (name : Text) (used : List Text) : Text :=
  if key name ∈ used then freshName key used candidate 1 else name

def orDefault (default name : Text) : Text := if name = [] then default else name

def stashBaseName (base : Text) : Text := orDefault (chars "SubConverter_Provider") (clampProviderNameLength base 64)

def reserveStashProviderName (base : Text) (reservedKeys : List Text) : Text :=
  reserveName toLower (suffixed 64 (stashBaseName base)) (stashBaseName base) reservedKeys

def loonBaseName (base : Text) : Text := orDefault (chars "SubConverter_Remote") (clampProviderNameLength base 64)

def reserveLoonResourceName (base : Text) (resourceNames : List Text) : Text :=
  reserveName id (suffixed 64 (loonBaseName base)) (loonBaseName base) resourceNames

def clashBaseName (base : Text) : Text :=
  orDefault (chars "Provider") (trimOf (clampProviderNameLength base kProviderNameMaxLen) '.')

def clashCandidate (name : Text) (number : Nat) : Text :=
  let room := kProviderNameMaxLen - ('_' :: decimal number).length
  numbered (orDefault (clampProviderNameLength (chars "Provider") room) (trimOf (clampProviderNameLength name room) '.')) number

def reserveProviderName (base : Text) (providerNames : List Text) : Text :=
  reserveName id (clashCandidate (clashBaseName base)) (clashBaseName base) providerNames

theorem toLower_decimal (number : Nat) : toLower (decimal number) = decimal number := by
  rw [toLower_eq_self]
  intro c there
  have digit : c.isDigit := Nat.isDigit_of_mem_toDigits (by decide) (by decide) there
  have small : ¬(c.val ≥ 'A'.val ∧ c.val ≤ 'Z'.val) := by
    simp only [Char.isDigit, Bool.and_eq_true, decide_eq_true_eq] at digit
    grind
  rw [Char.toLower, dif_neg small]

theorem numbered_inj {first second : Text} {m n : Nat} (same : numbered first m = numbered second n) : m = n := by
  have marks : ∀ number, '_' ∉ decimal number := fun number => not_mem_decimal (by decide)
  exact decimal_injective (mark_append_inj (marks m) (marks n) same).2

theorem toLower_numbered (name : Text) (number : Nat) : toLower (numbered name number) = numbered (toLower name) number := by
  rw [numbered, toLower, List.map_append, List.map_cons, ← toLower, ← toLower, toLower_decimal]
  rfl

theorem reserveName_not_mem {key : Text → Text} {candidate : Nat → Text} (injective : Function.Injective fun number => key (candidate number))
    (name : Text) (used : List Text) : key (reserveName key candidate name used) ∉ used := by
  unfold reserveName
  by_cases taken : key name ∈ used
  · rw [if_pos taken]
    exact key_freshName_not_mem injective 1
  · rwa [if_neg taken]

theorem reserveStashProviderName_not_mem (base : Text) (reservedKeys : List Text) :
    toLower (reserveStashProviderName base reservedKeys) ∉ reservedKeys := by
  apply reserveName_not_mem
  intro m n same
  simp only [suffixed, toLower_numbered] at same
  exact numbered_inj same

theorem reserveLoonResourceName_not_mem (base : Text) (resourceNames : List Text) :
    reserveLoonResourceName base resourceNames ∉ resourceNames := by
  have injective : Function.Injective (suffixed 64 (loonBaseName base)) := fun _ _ same => numbered_inj same
  exact @reserveName_not_mem id _ injective (loonBaseName base) resourceNames

theorem reserveProviderName_not_mem (base : Text) (providerNames : List Text) :
    reserveProviderName base providerNames ∉ providerNames := by
  have injective : Function.Injective (clashCandidate (clashBaseName base)) := fun _ _ same => numbered_inj same
  exact @reserveName_not_mem id _ injective (clashBaseName base) providerNames

end Reservation

end SubConverter.Handler
