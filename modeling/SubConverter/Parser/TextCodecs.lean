import SubConverter.Handler.LinkPrefixes
import SubConverter.Parser.ShareUri
import SubConverter.Parser.StrictBase64

set_option autoImplicit false

namespace SubConverter.Parser.TextCodecs

open Handler (urlDecode urlDecode_urlEncode urlEncode_cons)
open Handler.GithubProxy (urlEncode toHex)
open ShareUri StrictBase64 Utils.Base64

section UrlCodecs

variable {text rest : Text} {c : Char}

theorem hexDigit_toHex {d : Nat} (small : d < 16) : Handler.hexDigit (toHex d) = some d := by
  interval_cases d <;> decide

theorem nibbles (n : Nat) : (n / 16) <<< 4 ||| n % 16 = n := by
  rw [← Nat.shiftLeft_add_eq_or_of_lt (show n % 16 < 2 ^ 4 by omega), Nat.shiftLeft_eq]
  omega

theorem decodeShareUriUserInfo_plain (plain : c ≠ '%') : decodeShareUriUserInfo (c :: rest) = pushBack c (decodeShareUriUserInfo rest) := by
  rw [decodeShareUriUserInfo.eq_def]
  split
  next same => cases same
  next same => exact absurd (List.cons.inj same).1 plain
  next same =>
    obtain ⟨rfl, rfl⟩ := List.cons.inj same
    rfl

theorem decodeShareUriUserInfo_urlEncode (bytes : ∀ c ∈ text, c.toNat < 256) (breaks : ∀ c ∈ text, c ≠ '\r' ∧ c ≠ '\n') :
    decodeShareUriUserInfo (urlEncode text) = text := by
  induction text with
  | nil => rfl
  | cons c rest ih =>
    obtain ⟨byte, laterBytes⟩ := List.forall_mem_cons.mp bytes
    obtain ⟨line, laterBreaks⟩ := List.forall_mem_cons.mp breaks
    have pushed : pushBack c rest = c :: rest := if_neg (not_or.mpr line)
    rw [urlEncode_cons]
    split
    next plain =>
      have other : c ≠ '%' := by
        rintro rfl
        revert plain
        decide
      rw [List.singleton_append, decodeShareUriUserInfo_plain other, ih laterBytes laterBreaks, pushed]
    next =>
      have high : shareUriHexValue (toHex (c.toNat / 16)) = some (c.toNat / 16) := hexDigit_toHex (by omega)
      have low : shareUriHexValue (toHex (c.toNat % 16)) = some (c.toNat % 16) := hexDigit_toHex (by omega)
      simp only [List.cons_append, List.nil_append, decodeShareUriUserInfo, high, low]
      rw [nibbles, Char.ofNat_toNat, ih laterBytes laterBreaks, pushed]

theorem urlDecode_no_break (text : Text) : ∀ c ∈ urlDecode text, c ≠ '\r' ∧ c ≠ '\n' := by
  intro c there
  fun_induction urlDecode text with
  | case1 => cases there
  | case2 rest ih =>
    rcases List.mem_cons.mp there with rfl | later
    · decide
    · exact ih later
  | case3 high low rest both decoded broken ih => exact ih there
  | case4 high low rest both decoded kept ih =>
    rcases List.mem_cons.mp there with rfl | later
    · exact not_or.mp kept
    · exact ih later
  | case5 high low rest other ih =>
    rcases List.mem_cons.mp there with rfl | later
    · decide
    · exact ih later
  | case6 => cases there
  | case7 c rest _ _ _ broken ih => exact ih there
  | case8 c rest _ _ _ kept ih =>
    rcases List.mem_cons.mp there with rfl | later
    · exact not_or.mp kept
    · exact ih later

end UrlCodecs

section Results

theorem codecs_inverse (s encoded : Text) :
    ((∀ c ∈ s, c.toNat < 256) → (∀ c ∈ s, c ≠ '\r' ∧ c ≠ '\n') →
      urlDecode (urlEncode s) = s ∧ decodeShareUriUserInfo (urlEncode s) = s) ∧
    (∀ c ∈ urlDecode s, c ≠ '\r' ∧ c ≠ '\n') ∧
    ((∀ c ∈ s, c.toNat < 256) → ((base64Decode (base64Encode s) false = s ↔ s.length < 2 ^ 32) ∧
      (urlSafeBase64Decode (urlSafeBase64Encode s) = s ↔ s.length < 2 ^ 32))) ∧
    (encoded ≠ [] → (((decodeStrictBase64 encoded).isSome = true ↔ ∃ s, Base64Text encoded s) ↔
      ∀ s, Base64Text encoded s → s.length < 2 ^ 32)) := by
  refine ⟨fun bytes breaks => ⟨urlDecode_urlEncode bytes breaks, decodeShareUriUserInfo_urlEncode bytes breaks⟩,
    urlDecode_no_break s, fun bytes => ⟨?_, ?_⟩, fun present => ?_⟩
  · rw [base64Decode_base64Encode bytes, take_counted_iff]
  · rw [urlSafeBase64Decode_urlSafeBase64Encode bytes, take_counted_iff]
  · have accepts : (decodeStrictBase64 encoded).isSome = true ↔ ∃ s, Base64Text encoded s ∧ s.length < 2 ^ 32 := by
      rw [Option.isSome_iff_exists]
      simp only [decodeStrictBase64_iff, present, ne_eq, not_false_eq_true, true_and]
    rw [accepts]
    constructor
    · intro same s text
      obtain ⟨t, text', short⟩ := same.mpr ⟨s, text⟩
      rwa [text.candidate.symm.trans text'.candidate]
    · exact fun all => ⟨fun ⟨s, text, _⟩ => ⟨s, text⟩, fun ⟨s, text⟩ => ⟨s, text, all s text⟩⟩

theorem text_of_urlSafeLetters {s : Text} (bytes : ∀ c ∈ s, c.toNat < 256) :
    Base64Text ((SixBits.sextets (s.map Char.toNat)).map urlSafeLetter) s :=
  ⟨bytes, _, spelled_urlSafeLetters _, .inl rfl⟩

theorem codecs_overflow :
    base64Decode (base64Encode (List.replicate (2 ^ 32) 'a')) false ≠ List.replicate (2 ^ 32) 'a' ∧
      urlSafeBase64Decode (urlSafeBase64Encode (List.replicate (2 ^ 32) 'a')) ≠ List.replicate (2 ^ 32) 'a' ∧
      ∃ encoded ≠ [], Base64Text encoded (List.replicate (2 ^ 32) 'a') ∧ decodeStrictBase64 encoded = none := by
  generalize size : 2 ^ 32 = n
  have long : ¬(List.replicate n 'a').length < 2 ^ 32 := by rw [List.length_replicate, size]; exact lt_irrefl n
  have bytes : ∀ c ∈ List.replicate n 'a', c.toNat < 256 := fun c there => by rw [List.eq_of_mem_replicate there]; decide
  have text := text_of_urlSafeLetters bytes
  refine ⟨?_, ?_, _, fun empty => ?_, text, ?_⟩
  · rwa [base64Decode_base64Encode bytes, ne_eq, take_counted_iff]
  · rwa [urlSafeBase64Decode_urlSafeBase64Encode bytes, ne_eq, take_counted_iff]
  · rw [← text.candidate, empty] at long
    exact long (by decide)
  · rw [Option.eq_none_iff_forall_ne_some]
    intro decoded known
    obtain ⟨-, text', short⟩ := decodeStrictBase64_iff.mp known
    rw [← text'.candidate, text.candidate] at short
    exact long short

end Results

end SubConverter.Parser.TextCodecs
