import Mathlib
import SubConverter.Utils.Base64

set_option autoImplicit false

namespace SubConverter.Parser.StrictBase64

open SixBits Utils.Base64

section Decoder

/-- The characters that `decodeStrictBase64` lets pass beside the padding. -/
def isLetter (ch : Char) : Bool := ch.isAlphanum || ch = '-' || ch = '_' || ch = '+' || ch = '/'

-- The place of the first padding mark, behind which there is no letter.
def scanPadding (size : Nat) : Nat → Nat → Text → Option Nat
  | _, paddingStart, [] => some paddingStart
  | i, paddingStart, ch :: rest =>
    if ch = '=' then scanPadding size (i + 1) (min paddingStart i) rest
    else if paddingStart ≠ size ∨ isLetter ch = false then none
    else scanPadding size (i + 1) paddingStart rest

def paddingFits (size paddingStart : Nat) : Bool :=
  let padding := size - paddingStart
  if 0 < padding then
    let expectedPadding := if paddingStart % 4 = 2 then 2 else if paddingStart % 4 = 3 then 1 else 0
    size % 4 = 0 && padding = expectedPadding
  else paddingStart % 4 ≠ 1

def decodeStrictBase64 (encoded : Text) : Option Text :=
  if encoded = [] then none
  else do
    let paddingStart ← scanPadding encoded.length 0 encoded.length encoded
    if !paddingFits encoded.length paddingStart then none
    else
      let candidate := urlSafeBase64Decode encoded
      let normalized := replaceAllDistinct (replaceAllDistinct (encoded.take paddingStart) ['+'] ['-']) ['/'] ['_']
      if urlSafeBase64Encode candidate ≠ normalized then none else some candidate

end Decoder

section Texts

structure Base64Text (text bytes : Text) : Prop where
  byte : ∀ c ∈ bytes, c.toNat < 256
  spelled : ∃ letters, List.Forall₂ Spells letters (sextets (bytes.map Char.toNat)) ∧
    (text = letters ∨ text = letters ++ List.replicate (paddingLength bytes.length) '=')

variable {encoded decoded letters rest : Text} {size i p k : Nat} {ch : Char}

theorem toNat_ofNat_lt {n : Nat} (small : n < 256) : (Char.ofNat n).toNat = n := by
  rw [Char.ofNat, dif_pos (.inl (by omega))]
  rfl

theorem isLetter_iff : isLetter ch = true ↔ isBase64 true ch = true := by
  constructor
  · intro known
    have standard (alphanumeric : ch.isAlphanum = true) : ch ∈ base64Chars := by
      have ranges : 65 ≤ ch.toNat ∧ ch.toNat ≤ 90 ∨ 97 ≤ ch.toNat ∧ ch.toNat ≤ 122 ∨ 48 ≤ ch.toNat ∧ ch.toNat ≤ 57 := by
        simpa [Char.isAlphanum, Char.isAlpha, Char.isUpper, Char.isLower, Char.isDigit, UInt32.le_iff_toNat_le, or_assoc]
          using alphanumeric
      rw [← Char.ofNat_toNat ch]
      generalize ch.toNat = n at ranges
      rcases ranges with ⟨low, high⟩ | ⟨low, high⟩ | ⟨low, high⟩ <;> interval_cases n <;> decide
    simp only [isLetter, Bool.or_eq_true, decide_eq_true_eq] at known
    rcases known with (((alphanumeric | rfl) | rfl) | rfl) | rfl
    · rw [isBase64, itable_of_standard (standard alphanumeric)]
      rfl
    all_goals decide
  · intro accepted
    rw [isBase64, if_pos rfl, decide_eq_true_eq, itable] at accepted
    by_cases standard : ch ∈ base64Chars
    · have all : base64Chars.all isLetter = true := by decide
      exact List.all_eq_true.mp all ch standard
    · rw [if_neg standard] at accepted
      by_cases extra : ch = '-' ∨ ch = '_'
      · rcases extra with rfl | rfl <;> decide
      · exact absurd (if_neg extra) accepted

theorem scan_marks (started : p < size) (behind : p ≤ i) :
    scanPadding size i p rest = if ∀ c ∈ rest, c = '=' then some p else none := by
  induction rest generalizing i with
  | nil => simp [scanPadding]
  | cons ch rest ih =>
    rw [scanPadding, Nat.min_eq_left behind, ih (by omega)]
    by_cases mark : ch = '='
    · simp [mark]
    · simp [mark, started.ne]

theorem scan_iff (whole : i + rest.length = size) : scanPadding size i size rest = some p ↔
    ∃ letters k, rest = letters ++ List.replicate k '=' ∧ (∀ c ∈ letters, isLetter c = true) ∧ p = i + letters.length := by
  induction rest generalizing i with
  | nil =>
    simp only [scanPadding, Option.some_inj]
    constructor
    · rintro rfl
      exact ⟨[], 0, rfl, by simp, whole.symm⟩
    · rintro ⟨letters, k, same, -, rfl⟩
      obtain ⟨rfl, -⟩ := List.append_eq_nil_iff.mp same.symm
      exact whole.symm
  | cons ch rest ih =>
    rw [List.length_cons] at whole
    rw [scanPadding]
    by_cases mark : ch = '='
    · rw [if_pos mark, Nat.min_eq_right (by omega), scan_marks (by omega) (by omega)]
      constructor
      · intro found
        split at found
        next marks =>
          refine ⟨[], rest.length + 1, ?_, by simp, by simpa using found.symm⟩
          rw [List.nil_append, List.replicate_succ, mark, List.eq_replicate_of_mem marks, List.length_replicate]
        next => cases found
      · rintro ⟨letters, k, same, known, rfl⟩
        cases letters with
        | nil =>
          have marks : ∀ c ∈ rest, c = '=' := fun c there => by
            rw [List.nil_append] at same
            exact List.eq_of_mem_replicate (same ▸ List.mem_cons_of_mem ch there)
          rw [if_pos marks]
          rfl
        | cons c letters =>
          obtain rfl : ch = c := (List.cons.inj same).1
          have letter := known ch (.head _)
          rw [mark] at letter
          exact absurd letter (by decide)
    · rw [if_neg mark]
      by_cases letter : isLetter ch = true
      · rw [if_neg (by simp [letter]), ih (by omega)]
        constructor
        · rintro ⟨letters, k, rfl, known, rfl⟩
          exact ⟨ch :: letters, k, rfl, by simpa [letter] using known, by rw [List.length_cons]; omega⟩
        · rintro ⟨letters, k, same, known, rfl⟩
          cases letters with
          | nil =>
            cases k with
            | zero => cases same
            | succ k => exact absurd (List.cons.inj same).1 mark
          | cons c letters =>
            obtain ⟨rfl, rfl⟩ := List.cons.inj same
            exact ⟨letters, k, rfl, fun c there => known c (.tail _ there), by rw [List.length_cons]; omega⟩
      · rw [if_pos (.inr (Bool.eq_false_iff.mpr letter))]
        constructor
        · exact fun none' => by cases none'
        · rintro ⟨letters, k, same, known, rfl⟩
          cases letters with
          | nil =>
            cases k with
            | zero => cases same
            | succ k => exact absurd (List.cons.inj same).1 mark
          | cons c letters =>
            obtain rfl : ch = c := (List.cons.inj same).1
            exact absurd (known ch (.head _)) letter

theorem paddingFits_iff : paddingFits (p + k) p = true ↔ p % 4 ≠ 1 ∧ (k = 0 ∨ k = (4 - p % 4) % 4) := by
  rw [paddingFits, Nat.add_sub_cancel_left]
  dsimp only
  split
  next some' =>
    rw [Bool.and_eq_true, decide_eq_true_eq, decide_eq_true_eq]
    split
    · omega
    · split <;> omega
  next none' =>
    rw [decide_eq_true_eq]
    omega

theorem paddingLength_eq (n : Nat) : paddingLength n = (4 - (n * 4 + 2) / 3 % 4) % 4 ∧ (n * 4 + 2) / 3 % 4 ≠ 1 := by
  have remainders : n % 3 = 0 ∨ n % 3 = 1 ∨ n % 3 = 2 := by omega
  rcases remainders with zero | one | two
  · rw [paddingLength, zero]
    omega
  · rw [paddingLength, one]
    omega
  · rw [paddingLength, two]
    omega

theorem length_of_spelled (spelled : List.Forall₂ Spells letters (sextets (decoded.map Char.toNat))) :
    letters.length = (decoded.length * 4 + 2) / 3 := by
  rw [spelled.length_eq, length_sextets, List.length_map]

theorem Base64Text.shape (text : Base64Text encoded decoded) : ∃ letters k, encoded = letters ++ List.replicate k '=' ∧
    List.Forall₂ Spells letters (sextets (decoded.map Char.toNat)) ∧ (k = 0 ∨ k = paddingLength decoded.length) := by
  obtain ⟨letters, spelled, rfl | rfl⟩ := text.spelled
  · exact ⟨_, 0, (List.append_nil _).symm, spelled, .inl rfl⟩
  · exact ⟨_, _, rfl, spelled, .inr rfl⟩

theorem Base64Text.candidate (text : Base64Text encoded decoded) : urlSafeBase64Decode encoded = decoded := by
  obtain ⟨letters, k, rfl, spelled, -⟩ := text.shape
  have small : ∀ b ∈ decoded.map Char.toNat, b < 256 := List.forall_mem_map.mpr text.byte
  rw [urlSafeBase64Decode_spelled spelled small (head_replicate_padding k), map_ofNat_toNat]

theorem decode_of_text (text : Base64Text encoded decoded) (present : encoded ≠ []) (short : decoded.length < 2 ^ 32) :
    decodeStrictBase64 encoded = some decoded := by
  have candidate := text.candidate
  obtain ⟨letters, k, rfl, spelled, marks⟩ := text.shape
  obtain ⟨accepted, same⟩ := (spelled_iff fun _ => sextets_lt).mp spelled
  have scanned : scanPadding (letters ++ List.replicate k '=').length 0 (letters ++ List.replicate k '=').length
      (letters ++ List.replicate k '=') = some letters.length :=
    (scan_iff (Nat.zero_add _)).mpr ⟨letters, k, rfl, fun c there => isLetter_iff.mpr (accepted c there), (Nat.zero_add _).symm⟩
  have fits : paddingFits (letters ++ List.replicate k '=').length letters.length = true := by
    rw [List.length_append, List.length_replicate, paddingFits_iff, length_of_spelled spelled, ← (paddingLength_eq _).1]
    exact ⟨(paddingLength_eq _).2, marks⟩
  rw [decodeStrictBase64, if_neg present, scanned]
  simp only [Option.bind_eq_bind, Option.bind_some, fits, Bool.not_true, Bool.false_eq_true, if_false]
  rw [candidate, List.take_left, replace_plus_slash, urlSafeBase64Encode_eq, (take_counted_iff _).mpr short, same, if_neg (by simp)]

theorem text_of_decode (known : decodeStrictBase64 encoded = some decoded) :
    encoded ≠ [] ∧ Base64Text encoded decoded ∧ decoded.length < 2 ^ 32 := by
  rw [decodeStrictBase64] at known
  split at known
  next => cases known
  next present =>
    obtain ⟨p, scanned, known⟩ := Option.bind_eq_some_iff.mp known
    obtain ⟨letters, k, whole, accepted, rfl⟩ := (scan_iff (Nat.zero_add _)).mp scanned
    rw [Nat.zero_add] at known
    split at known
    next => cases known
    next fits =>
      simp only at known
      split at known
      next => cases known
      next written =>
        rw [not_not] at written
        have accepted : ∀ c ∈ letters, isBase64 true c = true := fun c there => isLetter_iff.mp (accepted c there)
        have candidate : urlSafeBase64Decode encoded = (octets (letters.map dtable)).map Char.ofNat := by
          rw [whole]
          exact decodeLoop_letters letters accepted (head_replicate_padding k)
        obtain rfl : urlSafeBase64Decode encoded = decoded := Option.some_inj.mp known
        generalize part : (urlSafeBase64Decode encoded).take ((urlSafeBase64Decode encoded).length % 2 ^ 32) = counted at written
        have small : ∀ c ∈ urlSafeBase64Decode encoded, c.toNat < 256 := by
          rw [candidate]
          intro c there
          obtain ⟨b, octet, rfl⟩ := List.mem_map.mp there
          have small := octets_lt octet
          rwa [toNat_ofNat_lt small]
        rw [urlSafeBase64Encode_eq, part, whole, List.take_left, replace_plus_slash] at written
        have spelled : List.Forall₂ Spells letters (sextets (counted.map Char.toNat)) :=
          (spelled_iff fun _ => sextets_lt).mpr ⟨accepted, written.symm⟩
        have small' : ∀ b ∈ counted.map Char.toNat, b < 256 :=
          List.forall_mem_map.mpr fun c there => small c (List.mem_of_mem_take (part ▸ there))
        have same : urlSafeBase64Decode encoded = counted := by
          rw [candidate, map_dtable_spelled spelled, octets_sextets small', map_ofNat_toNat]
        rw [← same] at part spelled
        refine ⟨present, ⟨small, letters, spelled, ?_⟩, (take_counted_iff _).mp part⟩
        rw [Bool.not_eq_true', Bool.not_eq_false, whole, List.length_append, List.length_replicate, paddingFits_iff,
          length_of_spelled spelled, ← (paddingLength_eq _).1] at fits
        rcases fits.2 with rfl | rfl
        · exact .inl (whole.trans (List.append_nil letters))
        · exact .inr whole

theorem decodeStrictBase64_iff : decodeStrictBase64 encoded = some decoded ↔
    encoded ≠ [] ∧ Base64Text encoded decoded ∧ decoded.length < 2 ^ 32 :=
  ⟨text_of_decode, fun ⟨present, text, short⟩ => decode_of_text text present short⟩

end Texts

end SubConverter.Parser.StrictBase64
