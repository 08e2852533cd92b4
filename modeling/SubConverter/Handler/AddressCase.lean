import SubConverter.Lib.AsciiCase
import SubConverter.Handler.ProviderNames
import SubConverter.Server.ClientIp

set_option autoImplicit false

namespace SubConverter.Handler

section Texts

variable {c mark : Char} {text : Text}

def Caseless (mark : Char) : Prop := mark.toNat < 65 ∨ 122 < mark.toNat ∨ (90 < mark.toNat ∧ mark.toNat < 97)

instance (mark : Char) : Decidable (Caseless mark) := inferInstanceAs (Decidable (_ ∨ _))

theorem isSpace_toUpper : isSpace c.toUpper = isSpace c := by
  have blank : ∀ mark ∈ [' ', '\t', '\x0c', '\x0b', '\n', '\r'], c.toUpper = mark ↔ c = mark := by
    have caseless : ∀ mark ∈ [' ', '\t', '\x0c', '\x0b', '\n', '\r'], Caseless mark := by simp [Caseless]
    exact fun mark there => toUpper_eq_iff (caseless mark there)
  simp only [List.forall_mem_cons] at blank
  simp [isSpace, blank]

theorem trimWhitespace_toUpper (text : Text) : trimWhitespace (toUpper text) = toUpper (trimWhitespace text) := by
  have blank : isSpace ∘ Char.toUpper = isSpace := funext fun _ => isSpace_toUpper
  rw [trimWhitespace, trimWhitespace, strip, strip, toUpper, toUpper, List.dropWhile_map, blank, ← List.map_reverse, List.dropWhile_map, blank,
    List.map_reverse]

theorem mem_toUpper (other : Caseless mark) : mark ∈ toUpper text ↔ mark ∈ text := by
  simp [toUpper, toUpper_eq_iff other]

theorem toUpper_eq_nil_iff : toUpper text = [] ↔ text = [] := List.map_eq_nil_iff

theorem splitOn_toUpper (other : Caseless mark) (text : Text) : (toUpper text).splitOn mark = (text.splitOn mark).map toUpper := by
  induction text with
  | nil => rfl
  | cons c rest ih =>
    have upper : (c.toUpper == mark) = (c == mark) := by
      rw [Bool.eq_iff_iff, beq_iff_eq, beq_iff_eq, toUpper_eq_iff other]
    have behind : (rest.map Char.toUpper).splitOn mark = (rest.splitOn mark).map toUpper := ih
    rw [toUpper, List.map_cons, List.splitOn_cons_eq_if_modifyHead, List.splitOn_cons_eq_if_modifyHead, upper, behind]
    split
    next => rfl
    next => cases rest.splitOn mark <;> rfl

theorem isPrefixOf_toUpper {start : Text} (other : ∀ c ∈ start, Caseless c) (text : Text) :
    start.isPrefixOf (toUpper text) = start.isPrefixOf text := by
  induction start generalizing text with
  | nil => rfl
  | cons mark start ih =>
    obtain ⟨here, others⟩ := List.forall_mem_cons.mp other
    cases text with
    | nil => rfl
    | cons c rest =>
      have first : (mark == c.toUpper) = (mark == c) := by
        rw [Bool.eq_iff_iff, beq_iff_eq, beq_iff_eq, eq_comm, toUpper_eq_iff here, eq_comm]
      have behind := ih others rest
      rw [toUpper] at behind
      simp [toUpper, List.isPrefixOf, first, behind]

theorem cutAt_toUpper {start : Text} (other : ∀ c ∈ start, Caseless c) (text : Text) :
    cutAt start (toUpper text) = (cutAt start text).map fun parts => (toUpper parts.1, toUpper parts.2) := by
  induction text with
  | nil =>
    rw [toUpper, List.map_nil, cutAt]
    split <;> rfl
  | cons c rest ih =>
    have begins := isPrefixOf_toUpper other (c :: rest)
    rw [toUpper, List.map_cons] at begins ⊢
    rw [← toUpper] at begins ⊢
    rw [cutAt, cutAt, begins]
    split
    next => simp [toUpper, List.map_drop]
    next =>
      rw [ih]
      cases cutAt start rest <;> rfl

end Texts

section Addresses

variable {c : Char} {text : Text}

theorem isDigit_toUpper : c.toUpper.isDigit = c.isDigit := by
  rcases toUpper_cases c with ⟨same, -⟩ | ⟨shifted, low, high⟩
  · rw [same]
  · rw [Bool.eq_iff_iff, isDigit_iff, isDigit_iff]
    omega

theorem toUpper_of_digits (digits : text.all Char.isDigit = true) : toUpper text = text := by
  refine (List.map_congr_left ?_).trans (List.map_id text)
  intro c there
  obtain ⟨-, high⟩ := isDigit_iff.mp (List.all_eq_true.mp digits c there)
  rcases toUpper_cases c with ⟨same, -⟩ | ⟨-, low, -⟩
  · exact same
  · omega

theorem all_isDigit_toUpper (text : Text) : (toUpper text).all Char.isDigit = text.all Char.isDigit := by
  have digit : Char.isDigit ∘ Char.toUpper = Char.isDigit := funext fun _ => isDigit_toUpper
  rw [toUpper, List.all_map, digit]

theorem ptonOctet_toUpper (text : Text) : ptonOctet (toUpper text) = ptonOctet text := by
  cases digits : text.all Char.isDigit with
  | true => rw [toUpper_of_digits digits]
  | false => simp [ptonOctet, all_isDigit_toUpper, digits]

theorem inetPton4_toUpper (text : Text) : inetPton4 (toUpper text) = inetPton4 text := by
  rw [inetPton4, inetPton4, splitOn_toUpper (by decide)]
  match text.splitOn '.' with
  | [a, b, c, d] => simp only [List.map_cons, List.map_nil, ptonOctet_toUpper]
  | [] | [_] | [_, _] | [_, _, _] => rfl
  | _ :: _ :: _ :: _ :: _ :: _ => rfl

theorem hexDigit_eq (c : Char) :
    hexDigit c =
      if 48 ≤ c.toNat ∧ c.toNat ≤ 57 then some (c.toNat - 48)
      else if 97 ≤ c.toNat ∧ c.toNat ≤ 102 then some (c.toNat - 87)
      else if 65 ≤ c.toNat ∧ c.toNat ≤ 70 then some (c.toNat - 55)
      else none := by
  simp only [hexDigit, Char.le_def, UInt32.le_iff_toNat_le]
  rfl

theorem hexDigit_toUpper : hexDigit c.toUpper = hexDigit c := by
  rcases toUpper_cases c with ⟨same, -⟩ | ⟨shifted, low, high⟩
  · rw [same]
  · rw [hexDigit_eq, hexDigit_eq]
    by_cases letter : c.toNat ≤ 102
    · rw [if_neg (by omega), if_neg (by omega), if_pos (by omega), if_neg (by omega), if_pos (by omega)]
      congr 1
      omega
    · rw [if_neg (by omega), if_neg (by omega), if_neg (by omega), if_neg (by omega), if_neg (by omega), if_neg (by omega)]

theorem hexGroup_toUpper (text : Text) : hexGroup (toUpper text) = hexGroup text := by
  have hex : isHex ∘ Char.toUpper = isHex := funext fun c => by rw [Function.comp, isHex, isHex, hexDigit_toUpper]
  have value : hexValue (toUpper text) = hexValue text := by
    rw [hexValue, toUpper, List.foldl_map]
    simp only [hexDigit_toUpper]
    rfl
  rw [hexGroup, hexGroup, value]
  simp only [toUpper, List.all_map, hex, List.length_map, ne_eq, List.map_eq_nil_iff]

theorem hexGroups_toUpper (parts : List Text) : hexGroups (parts.map toUpper) = hexGroups parts := by
  induction parts with
  | nil => rfl
  | cons part rest ih => rw [List.map_cons, hexGroups, hexGroups, hexGroup_toUpper, ih]

theorem tailGroups_toUpper (parts : List Text) : tailGroups (parts.map toUpper) = tailGroups parts := by
  induction parts with
  | nil => rfl
  | cons part rest ih =>
    cases rest with
    | nil => simp only [List.map_cons, List.map_nil, tailGroups, hexGroup_toUpper, inetPton4_toUpper]
    | cons next rest =>
      rw [List.map_cons] at ih
      rw [List.map_cons, List.map_cons, tailGroups, tailGroups, hexGroup_toUpper, ih]

theorem colonParts_toUpper (text : Text) : colonParts (toUpper text) = (colonParts text).map toUpper := by
  rw [colonParts, colonParts, splitOn_toUpper (by decide)]
  by_cases empty : text = []
  · rw [if_pos empty, if_pos (toUpper_eq_nil_iff.mpr empty), List.map_nil]
  · rw [if_neg empty, if_neg (empty ∘ toUpper_eq_nil_iff.mp)]

theorem inetPton6_toUpper (text : Text) : inetPton6 (toUpper text) = inetPton6 text := by
  rw [inetPton6, inetPton6, cutAt_toUpper (by simp [Caseless])]
  cases cutAt [':', ':'] text with
  | none => simp only [Option.map_none, colonParts_toUpper, tailGroups_toUpper]
  | some parts => simp only [Option.map_some, colonParts_toUpper, hexGroups_toUpper, tailGroups_toUpper]

theorem cString_toUpper (text : Text) : cString (toUpper text) = toUpper (cString text) := by
  have ends : (fun c => decide (c ≠ '\x00')) ∘ Char.toUpper = fun c => decide (c ≠ '\x00') := by
    funext c
    simp [toUpper_eq_iff (show Caseless '\x00' by decide)]
  rw [cString, toUpper, List.takeWhile_map, ends]
  rfl

theorem parseAddress_toUpper (raw : Text) : parseAddress (toUpper raw) = parseAddress raw := by
  have empty := @toUpper_eq_nil_iff (trimWhitespace raw)
  have zone : '%' ∈ toUpper (trimWhitespace raw) ↔ '%' ∈ trimWhitespace raw := mem_toUpper (by decide)
  have length : (toUpper (trimWhitespace raw)).length = (trimWhitespace raw).length := List.length_map _
  simp only [parseAddress, trimWhitespace_toUpper, cString_toUpper, inetPton4_toUpper, inetPton6_toUpper, empty, zone, length]

theorem parseCidr_toUpper (raw : Text) : (Server.parseCidr (toUpper raw)).toOption = (Server.parseCidr raw).toOption := by
  simp only [Server.parseCidr, trimWhitespace_toUpper, @cutAt_toUpper ['/'] (List.forall_mem_singleton.mpr (by decide))]
  cases cutAt ['/'] (trimWhitespace raw) with
  | none => rfl
  | some parts =>
    obtain ⟨address, bits⟩ := parts
    have slash : '/' ∈ toUpper bits ↔ '/' ∈ bits := mem_toUpper (by decide)
    simp only [Option.map_some, slash, parseAddress_toUpper, toUpper_eq_nil_iff, all_isDigit_toUpper]
    cases digits : bits.all Char.isDigit with
    | true =>
      rw [toUpper_of_digits digits]
      split_ifs
      next => rfl
      next => cases parseAddress address <;> rfl
      next =>
        cases parseAddress address with
        | none => rfl
        | some network =>
          dsimp only
          split_ifs <;> rfl
    | false =>
      split_ifs
      next => rfl
      next => cases parseAddress address <;> rfl
      next undigested => exact absurd (.inr rfl) undigested

end Addresses

end SubConverter.Handler
