import SubConverter.Lib.Delimited
import SubConverter.Lib.Rewriting
import SubConverter.Lib.SixBits

set_option autoImplicit false

namespace SubConverter.Utils.Base64

open SixBits Rewriting

section Codecs

def base64Chars : Text := chars "ABCDEFGHIJKLMNOPQRSTUVWXYZabcdefghijklmnopqrstuvwxyz0123456789+/"

def letter (index : Nat) : Char := base64Chars.getD index '\x00'

def encodeGroup (a b c : Nat) : List Nat :=
  [(a &&& 0xfc) >>> 2, ((a &&& 0x03) <<< 4) + ((b &&& 0xf0) >>> 4), ((b &&& 0x0f) <<< 2) + ((c &&& 0xc0) >>> 6), c &&& 0x3f]

-- What is left over is filled up with zeros.
def encodeTail (pending : Text) : Text :=
  if pending = [] then []
  else
    let byte := fun j => (pending.getD j '\x00').toNat
    ((encodeGroup (byte 0) (byte 1) (byte 2)).take (pending.length + 1)).map letter ++ List.replicate (3 - pending.length) '='

def encodeLoop : Text → Text → Text
  | pending, [] => encodeTail pending
  | pending, c :: rest =>
    match pending ++ [c] with
    | [x, y, z] => (encodeGroup x.toNat y.toNat z.toNat).map letter ++ encodeLoop [] rest
    | pending => encodeLoop pending rest

-- The counter has thirty-two bits.
def base64Encode (stringToEncode : Text) : Text := encodeLoop [] (stringToEncode.take (stringToEncode.length % 2 ^ 32))

def dtable (uchar : Char) : Nat :=
  if uchar = '-' then base64Chars.idxOf '+'
  else if uchar = '_' then base64Chars.idxOf '/'
  else if uchar ∈ base64Chars then base64Chars.idxOf uchar
  else 0

def itable (uchar : Char) : Nat := if uchar ∈ base64Chars then 1 else if uchar = '-' ∨ uchar = '_' then 2 else 0

def isBase64 (acceptUrlsafe : Bool) (uchar : Char) : Bool := if acceptUrlsafe then itable uchar ≠ 0 else itable uchar = 1

def decodeGroup (w x y z : Nat) : List Nat :=
  [((w <<< 2) + ((x &&& 0x30) >>> 4)) % 256, (((x &&& 0xf) <<< 4) + ((y &&& 0x3c) >>> 2)) % 256, (((y &&& 0x3) <<< 6) + z) % 256]

def decodeTail (pending : Text) : Text :=
  if pending = [] then []
  else
    let value := fun j => dtable (pending.getD j '\x00')
    ((decodeGroup (value 0) (value 1) (value 2) (value 3)).take (pending.length - 1)).map Char.ofNat

-- A character that is no letter is copied, and the letters before it that fill no group are forgotten.
def decodeLoop (acceptUrlsafe : Bool) : Text → Text → Text
  | pending, [] => decodeTail pending
  | pending, uchar :: rest =>
    if uchar = '=' then decodeTail pending
    else if !isBase64 acceptUrlsafe uchar then uchar :: decodeLoop acceptUrlsafe [] rest
    else
      match pending ++ [uchar] with
      | [w, x, y, z] =>
        (decodeGroup (dtable w) (dtable x) (dtable y) (dtable z)).map Char.ofNat ++ decodeLoop acceptUrlsafe [] rest
      | pending => decodeLoop acceptUrlsafe pending rest

def base64Decode (encodedString : Text) (acceptUrlsafe : Bool) : Text := decodeLoop acceptUrlsafe [] encodedString

def replaceAllDistinct (str oldValue newValue : Text) : Text :=
  rewrite (fun _ rest => if oldValue.isPrefixOf rest then some (newValue, rest.drop oldValue.length) else none) str

def urlSafeBase64Apply (encodedString : Text) : Text :=
  replaceAllDistinct (replaceAllDistinct (replaceAllDistinct encodedString ['+'] ['-']) ['/'] ['_']) ['='] []

def urlSafeBase64Decode (encodedString : Text) : Text := base64Decode encodedString true

def urlSafeBase64Encode (stringToEncode : Text) : Text := urlSafeBase64Apply (base64Encode stringToEncode)

end Codecs

section Letters

def urlSafeChars : Text := base64Chars.take 62 ++ ['-', '_']

def Spells (c : Char) (d : Nat) : Prop := base64Chars[d]? = some c ∨ urlSafeChars[d]? = some c

theorem nodup_base64Chars : base64Chars.Nodup := by decide

variable {c : Char} {d : Nat} {text rest : Text}

theorem letter_eq (small : d < 64) : base64Chars[d]? = some (letter d) := by
  rw [letter, List.getD_eq_getElem?_getD, List.getElem?_eq_getElem (show d < base64Chars.length from small)]
  rfl

theorem dtable_of_standard (here : base64Chars[d]? = some c) : dtable c = d := by
  obtain ⟨small, rfl⟩ := List.getElem?_eq_some_iff.mp here
  have there : base64Chars[d] ∈ base64Chars := List.getElem_mem small
  have plain : base64Chars[d] ≠ '-' ∧ base64Chars[d] ≠ '_' :=
    ⟨fun same => absurd (same ▸ there) (by decide), fun same => absurd (same ▸ there) (by decide)⟩
  rw [dtable, if_neg plain.1, if_neg plain.2, if_pos there, nodup_base64Chars.idxOf_getElem]

theorem urlSafe_cases (here : urlSafeChars[d]? = some c) : base64Chars[d]? = some c ∨ c = '-' ∧ d = 62 ∨ c = '_' ∧ d = 63 := by
  rw [urlSafeChars, List.getElem?_append] at here
  split at here
  next front =>
    rw [List.getElem?_take] at here
    split at here
    · exact .inl here
    · cases here
  next back =>
    have size : (base64Chars.take 62).length = 62 := by decide
    rw [size] at back here
    obtain ⟨left, rfl⟩ := Nat.exists_eq_add_of_le (show 62 ≤ d by omega)
    rw [Nat.add_sub_cancel_left] at here
    match left with
    | 0 => exact .inr (.inl ⟨by simpa using here.symm, rfl⟩)
    | 1 => exact .inr (.inr ⟨by simpa using here.symm, rfl⟩)
    | left + 2 => cases here

theorem itable_of_standard (there : c ∈ base64Chars) : itable c = 1 := if_pos there

structure Letter (c : Char) (d : Nat) : Prop where
  small : d < 64
  value : dtable c = d
  accepted : isBase64 true c = true
  plain : c ≠ '='

theorem Spells.letter (spells : Spells c d) : Letter c d := by
  have cases' : base64Chars[d]? = some c ∨ c = '-' ∧ d = 62 ∨ c = '_' ∧ d = 63 := spells.elim .inl urlSafe_cases
  rcases cases' with standard | ⟨rfl, rfl⟩ | ⟨rfl, rfl⟩
  · have there : c ∈ base64Chars := List.mem_of_getElem? standard
    refine ⟨(List.getElem?_eq_some_iff.mp standard).1, dtable_of_standard standard, ?_, fun same => ?_⟩
    · rw [isBase64, itable_of_standard there]
      rfl
    · exact absurd (same ▸ there) (by decide)
  · exact ⟨by decide, by decide, by decide, by decide⟩
  · exact ⟨by decide, by decide, by decide, by decide⟩

theorem spells_of_accepted (accepted : isBase64 true c = true) : Spells c (dtable c) := by
  rw [isBase64, if_pos rfl, decide_eq_true_eq, itable] at accepted
  by_cases standard : c ∈ base64Chars
  · obtain ⟨d, here⟩ := List.mem_iff_getElem?.mp standard
    rw [dtable_of_standard here]
    exact .inl here
  · rw [if_neg standard] at accepted
    by_cases extra : c = '-' ∨ c = '_'
    · rcases extra with rfl | rfl
      · exact .inr (by decide)
      · exact .inr (by decide)
    · exact absurd (if_neg extra) accepted

end Letters

section Groups

theorem encodeGroup_eq (a b c : Nat) :
    encodeGroup a b c = [a / 4 % 64, a % 4 * 16 + b / 16 % 16, b % 16 * 4 + c / 64 % 4, c % 64] := by
  rw [encodeGroup, show 0xfc = (2 ^ 6 - 1) <<< 2 from rfl, show 0xf0 = (2 ^ 4 - 1) <<< 4 from rfl,
    show 0xc0 = (2 ^ 2 - 1) <<< 6 from rfl, masked_shift, masked_shift, masked_shift, show 0x03 = 2 ^ 2 - 1 from rfl,
    show 0x0f = 2 ^ 4 - 1 from rfl, masked_left, masked_left, show 0x3f = 2 ^ 6 - 1 from rfl, Nat.and_two_pow_sub_one_eq_mod]
  rfl

theorem decodeGroup_eq (w x y z : Nat) :
    decodeGroup w x y z = [(w * 4 + x / 16 % 4) % 256, x % 16 * 16 + y / 4 % 16, (y % 4 * 64 + z) % 256] := by
  rw [decodeGroup, show 0x30 = (2 ^ 2 - 1) <<< 4 from rfl, show 0x3c = (2 ^ 4 - 1) <<< 2 from rfl, masked_shift, masked_shift,
    show 0xf = 2 ^ 4 - 1 from rfl, show 0x3 = 2 ^ 2 - 1 from rfl, masked_left, masked_left, Nat.shiftLeft_eq,
    Nat.mod_eq_of_lt (show x % 2 ^ 4 * 2 ^ 4 + y / 2 ^ 2 % 2 ^ 4 < 256 by omega)]
  rfl

variable {accept : Bool} {letters rest text : Text} {c : Char}

def encoded (bytes : List Nat) : Text := (sextets bytes).map letter ++ List.replicate (paddingLength bytes.length) '='

theorem encodeLoop_eq (text : Text) : encodeLoop [] text = encoded (text.map Char.toNat) := by
  match text with
  | [] => rfl
  | [x] | [x, y] => simp [encodeLoop, encodeTail, encodeGroup_eq, encoded, sextets, paddingLength, List.replicate]
  | x :: y :: z :: rest =>
    have size : (rest.map Char.toNat).length + 1 + 1 + 1 = (rest.map Char.toNat).length + 3 := rfl
    simp only [encodeLoop, List.nil_append, List.cons_append, encodeGroup_eq, encodeLoop_eq rest, encoded, List.map_cons, sextets,
      List.map_nil, List.length_cons, paddingLength]
    rw [size, Nat.add_mod_right]

theorem decodeLoop_ends (ends : ∀ c ∈ rest.head?, c = '=') (pending : Text) :
    decodeLoop accept pending rest = decodeTail pending := by
  cases rest with
  | nil => rfl
  | cons c rest =>
    rw [decodeLoop.eq_def]
    exact if_pos (ends c rfl)

theorem not_padding (accepted : isBase64 accept c = true) : c ≠ '=' := by
  rintro rfl
  cases accept <;> revert accepted <;> decide

theorem decodeLoop_accepted (accepted : isBase64 accept c = true) (pending : Text) :
    decodeLoop accept pending (c :: rest) =
      match pending ++ [c] with
      | [w, x, y, z] => (decodeGroup (dtable w) (dtable x) (dtable y) (dtable z)).map Char.ofNat ++ decodeLoop accept [] rest
      | pending => decodeLoop accept pending rest := by
  rw [decodeLoop.eq_def]
  simp only [not_padding accepted, accepted, if_false, Bool.not_true, Bool.false_eq_true]

theorem decodeLoop_collect {pending : Text} (accepted : ∀ c ∈ letters, isBase64 accept c = true)
    (short : pending.length + letters.length < 4) :
    decodeLoop accept pending (letters ++ rest) = decodeLoop accept (pending ++ letters) rest := by
  induction letters generalizing pending with
  | nil => rw [List.append_nil, List.nil_append]
  | cons c letters ih =>
    obtain ⟨first, later⟩ := List.forall_mem_cons.mp accepted
    rw [List.length_cons] at short
    have size : (pending ++ [c]).length < 4 := by
      rw [List.length_append, List.length_singleton]
      omega
    rw [List.cons_append, decodeLoop_accepted first]
    split
    next full =>
      rw [full] at size
      exact absurd size (by simp)
    next =>
      rw [ih later (by rw [List.length_append, List.length_singleton]; omega), List.append_assoc, List.singleton_append]

theorem decodeLoop_letters (letters : Text) (accepted : ∀ c ∈ letters, isBase64 accept c = true) (ends : ∀ c ∈ rest.head?, c = '=') :
    decodeLoop accept [] (letters ++ rest) = (octets (letters.map dtable)).map Char.ofNat := by
  match letters with
  | [] => exact decodeLoop_ends ends []
  | [w] =>
    rw [decodeLoop_collect accepted (by simp), decodeLoop_ends ends]
    rfl
  | [w, x] =>
    rw [decodeLoop_collect accepted (by simp), decodeLoop_ends ends, List.nil_append, decodeTail, if_neg (by simp)]
    simp only [decodeGroup_eq]
    rfl
  | [w, x, y] =>
    rw [decodeLoop_collect accepted (by simp), decodeLoop_ends ends, List.nil_append, decodeTail, if_neg (by simp)]
    simp only [decodeGroup_eq]
    rfl
  | w :: x :: y :: z :: more =>
    have ih := decodeLoop_letters more (fun c there => accepted c (by simp [there])) ends
    have front : ∀ c ∈ [w, x, y], isBase64 accept c = true := fun c there => by
      simp only [List.mem_cons, List.not_mem_nil, or_false] at there
      exact accepted c (by simp only [List.mem_cons]; tauto)
    have split' : w :: x :: y :: z :: more ++ rest = [w, x, y] ++ z :: (more ++ rest) := rfl
    rw [split', decodeLoop_collect front (by simp), decodeLoop_accepted (accepted z (by simp))]
    simp only [List.cons_append, List.nil_append]
    rw [ih, decodeGroup_eq]
    rfl

end Groups

section RoundTrips

variable {bytes : List Nat} {text : Text} {accept : Bool} {d : Nat}

theorem dtable_letter (small : d < 64) : dtable (letter d) = d := dtable_of_standard (letter_eq small)

theorem accepted_letter (small : d < 64) : isBase64 accept (letter d) = true := by
  rw [isBase64, itable_of_standard (List.mem_of_getElem? (letter_eq small))]
  cases accept <;> rfl

theorem map_dtable_letters (bytes : List Nat) : ((sextets bytes).map letter).map dtable = sextets bytes := by
  rw [List.map_map]
  refine (List.map_congr_left fun d there => ?_).trans (List.map_id _)
  exact dtable_letter (sextets_lt there)

theorem head_replicate_padding (n : Nat) : ∀ c ∈ (List.replicate n '=').head?, c = '=' := by
  intro c first
  exact List.eq_of_mem_replicate (List.mem_of_mem_head? first)

theorem base64Decode_encoded (small : ∀ b ∈ bytes, b < 256) : base64Decode (encoded bytes) accept = bytes.map Char.ofNat := by
  have accepted : ∀ c ∈ (sextets bytes).map letter, isBase64 accept c = true := by
    intro c there
    obtain ⟨d, group, rfl⟩ := List.mem_map.mp there
    exact accepted_letter (sextets_lt group)
  rw [base64Decode, encoded, decodeLoop_letters _ accepted (head_replicate_padding _), map_dtable_letters, octets_sextets small]

theorem map_ofNat_toNat (text : Text) : (text.map Char.toNat).map Char.ofNat = text := by
  rw [List.map_map]
  exact (List.map_congr_left fun c _ => Char.ofNat_toNat c).trans (List.map_id _)

theorem base64Decode_base64Encode (small : ∀ c ∈ text, c.toNat < 256) :
    base64Decode (base64Encode text) accept = text.take (text.length % 2 ^ 32) := by
  rw [base64Encode, encodeLoop_eq, base64Decode_encoded, map_ofNat_toNat]
  intro b there
  obtain ⟨c, kept, rfl⟩ := List.mem_map.mp there
  exact small c (List.mem_of_mem_take kept)

theorem take_counted_iff (text : Text) : text.take (text.length % 2 ^ 32) = text ↔ text.length < 2 ^ 32 := by
  rw [List.take_eq_self_iff]
  have := Nat.mod_lt text.length (show 0 < 2 ^ 32 by decide)
  constructor
  · intro all
    omega
  · intro short
    rw [Nat.mod_eq_of_lt short]

theorem replaceAllDistinct_single (text : Text) (a : Char) (newValue : Text) :
    replaceAllDistinct text [a] newValue = text.flatMap fun c => if c = a then newValue else [c] := by
  let rule : Rule Char := fun _ rest => if [a].isPrefixOf rest then some (newValue, rest.drop [a].length) else none
  have scan (before : Text) : rewriteFrom rule before 0 text = before ++ text.flatMap fun c => if c = a then newValue else [c] := by
    induction text generalizing before with
    | nil => exact (List.append_nil before).symm
    | cons c rest ih =>
      rw [List.flatMap_cons]
      by_cases same : c = a
      · have hit : rule before (c :: rest) = some (newValue, rest) := if_pos (by simp [same])
        rw [if_pos same, rewriteFrom, hit]
        dsimp only
        rw [Nat.sub_self, ih, List.append_assoc]
      · have miss : rule before (c :: rest) = none := if_neg (by simpa using fun equal => same equal.symm)
        rw [if_neg same, rewriteFrom_miss miss, ih, List.append_assoc]
  exact scan []

def toUrlSafe (c : Char) : Char := if c = '+' then '-' else if c = '/' then '_' else c

theorem replace_plus_slash (text : Text) :
    replaceAllDistinct (replaceAllDistinct text ['+'] ['-']) ['/'] ['_'] = text.map toUrlSafe := by
  rw [replaceAllDistinct_single, replaceAllDistinct_single, List.flatMap_assoc, List.map_eq_flatMap]
  refine List.flatMap_congr fun c _ => ?_
  unfold toUrlSafe
  split
  · rfl
  · simp only [List.flatMap_cons, List.flatMap_nil, List.append_nil]
    split <;> rfl

end RoundTrips

section UrlSafe

variable {bytes : List Nat} {text letters rest : Text} {c : Char} {d : Nat}

def urlSafeLetter (index : Nat) : Char := urlSafeChars.getD index '\x00'

theorem toUrlSafe_letter (small : d < 64) : toUrlSafe (letter d) = urlSafeLetter d := by
  interval_cases d <;> rfl

theorem urlSafeLetter_eq (small : d < 64) : urlSafeChars[d]? = some (urlSafeLetter d) := by
  rw [urlSafeLetter, List.getD_eq_getElem?_getD, List.getElem?_eq_getElem (show d < urlSafeChars.length from small)]
  rfl

theorem spells_urlSafeLetter (small : d < 64) : Spells (urlSafeLetter d) d := .inr (urlSafeLetter_eq small)

theorem toUrlSafe_of_spells (spells : Spells c d) : toUrlSafe c = urlSafeLetter d := by
  have cases' : base64Chars[d]? = some c ∨ c = '-' ∧ d = 62 ∨ c = '_' ∧ d = 63 := spells.elim .inl urlSafe_cases
  rcases cases' with standard | ⟨rfl, rfl⟩ | ⟨rfl, rfl⟩
  · have small : d < 64 := spells.letter.small
    rw [letter_eq small, Option.some_inj] at standard
    rw [← standard, toUrlSafe_letter small]
  · rfl
  · rfl

theorem urlSafeLetter_inj {e : Nat} (small : d < 64) (small' : e < 64) (same : urlSafeLetter d = urlSafeLetter e) : d = e := by
  have value := (spells_urlSafeLetter small).letter.value
  have value' := (spells_urlSafeLetter small').letter.value
  rw [← value, ← value', same]

theorem spells_iff (small : d < 64) : Spells c d ↔ isBase64 true c = true ∧ toUrlSafe c = urlSafeLetter d := by
  refine ⟨fun spells => ⟨spells.letter.accepted, toUrlSafe_of_spells spells⟩, fun ⟨accepted, same⟩ => ?_⟩
  have spells := spells_of_accepted accepted
  rw [toUrlSafe_of_spells spells] at same
  rwa [urlSafeLetter_inj spells.letter.small small same] at spells

theorem spelled_iff {groups : List Nat} (small : ∀ d ∈ groups, d < 64) : List.Forall₂ Spells letters groups ↔
    (∀ c ∈ letters, isBase64 true c = true) ∧ letters.map toUrlSafe = groups.map urlSafeLetter := by
  induction letters generalizing groups with
  | nil => cases groups <;> simp
  | cons c letters ih =>
    cases groups with
    | nil => simp
    | cons d groups =>
      obtain ⟨first, later⟩ := List.forall_mem_cons.mp small
      rw [List.forall₂_cons, spells_iff first, ih later, List.forall_mem_cons, List.map_cons, List.map_cons, List.cons.injEq]
      tauto

theorem map_dtable_spelled {groups : List Nat} (spelled : List.Forall₂ Spells letters groups) : letters.map dtable = groups := by
  induction spelled with
  | nil => rfl
  | cons spells _ ih => rw [List.map_cons, ih, spells.letter.value]

theorem urlSafeBase64Decode_spelled (spelled : List.Forall₂ Spells letters (sextets bytes)) (small : ∀ b ∈ bytes, b < 256)
    (ends : ∀ c ∈ rest.head?, c = '=') : urlSafeBase64Decode (letters ++ rest) = bytes.map Char.ofNat := by
  have accepted := ((spelled_iff fun _ => sextets_lt).mp spelled).1
  rw [urlSafeBase64Decode, base64Decode, decodeLoop_letters letters accepted ends, map_dtable_spelled spelled, octets_sextets small]

theorem urlSafeBase64Apply_encoded (bytes : List Nat) : urlSafeBase64Apply (encoded bytes) = (sextets bytes).map urlSafeLetter := by
  rw [urlSafeBase64Apply, replace_plus_slash, replaceAllDistinct_single, encoded, List.map_append, List.flatMap_append,
    List.map_replicate]
  have marks : (List.replicate (paddingLength bytes.length) (toUrlSafe '=')).flatMap (fun c => if c = '=' then [] else [c]) = [] := by
    rw [List.flatMap_eq_nil_iff]
    intro c there
    rw [List.eq_of_mem_replicate there]
    rfl
  rw [marks, List.append_nil, List.map_map, List.flatMap_map, List.map_eq_flatMap]
  refine List.flatMap_congr fun d there => ?_
  have small := sextets_lt there
  rw [Function.comp_apply, toUrlSafe_letter small, if_neg (spells_urlSafeLetter small).letter.plain]

theorem urlSafeBase64Encode_eq (text : Text) :
    urlSafeBase64Encode text = (sextets ((text.take (text.length % 2 ^ 32)).map Char.toNat)).map urlSafeLetter := by
  rw [urlSafeBase64Encode, base64Encode, encodeLoop_eq, urlSafeBase64Apply_encoded]

theorem spelled_urlSafeLetters (bytes : List Nat) : List.Forall₂ Spells ((sextets bytes).map urlSafeLetter) (sextets bytes) := by
  rw [List.forall₂_map_left_iff, List.forall₂_same]
  exact fun d there => spells_urlSafeLetter (sextets_lt there)

theorem urlSafeBase64Decode_urlSafeBase64Encode (small : ∀ c ∈ text, c.toNat < 256) :
    urlSafeBase64Decode (urlSafeBase64Encode text) = text.take (text.length % 2 ^ 32) := by
  have small' : ∀ b ∈ (text.take (text.length % 2 ^ 32)).map Char.toNat, b < 256 := by
    intro b there
    obtain ⟨c, kept, rfl⟩ := List.mem_map.mp there
    exact small c (List.mem_of_mem_take kept)
  have decoded := @urlSafeBase64Decode_spelled _ _ [] (spelled_urlSafeLetters _) small' (by simp)
  rw [List.append_nil, map_ofNat_toNat] at decoded
  rw [urlSafeBase64Encode_eq, decoded]

end UrlSafe

end SubConverter.Utils.Base64
