import SubConverter.Handler.Addresses
import SubConverter.Lib.Stripped
import SubConverter.Parser.StrictBase64

set_option autoImplicit false

namespace SubConverter.Handler.DataUrl

open Utils.Base64 SixBits
open Parser.StrictBase64 (Base64Text)

section Fetch

def isBreak (ch : Char) : Bool := ch = '\r' || ch = '\n'

def keeps (base64 : Bool) (ch : Char) : Bool := !base64 || !isBreak ch

def pushBack (base64 : Bool) (ch : Char) (data : Text) : Text := if keeps base64 ch then ch :: data else data

-- The branch without a percent sign.
def wholePayload (base64 : Bool) (payload : Text) : Text :=
  if base64 && (payload.contains '\r' || payload.contains '\n') then payload.filter fun ch => !isBreak ch else payload

-- The branch with one; three characters have to be left for an escape.
def unescape (base64 : Bool) : Text → Text
  | [] => []
  | '%' :: high :: low :: rest =>
    match hexDigit high, hexDigit low with
    | some high, some low => pushBack base64 (Char.ofNat (high * 16 + low)) (unescape base64 rest)
    | _, _ => pushBack base64 '%' (unescape base64 (high :: low :: rest))
  | ch :: rest => pushBack base64 ch (unescape base64 rest)

def exceeds (maxDownloadSize : Int) (data : Text) : Bool := 0 < maxDownloadSize && maxDownloadSize < data.length

def dataGet (maxDownloadSize : Int) (url : Text) : Text :=
  if !startsWith url (chars "data:") then []
  else
    match cutAt [','] url with
    | none => []
    | some (header, payload) =>
      if payload = [] then []
      else
        let base64 := endsWith header (chars ";base64")
        let data := if '%' ∉ payload then wholePayload base64 payload else unescape base64 payload
        if exceeds maxDownloadSize data then []
        else if base64 then
          let decoded := urlSafeBase64Decode data
          if exceeds maxDownloadSize decoded then [] else decoded
        else data

end Fetch

section Payloads

inductive Escaped : Text → Text → Prop where
  | nil : Escaped [] []
  | plain {payload text : Text} {ch : Char} (kept : ch ≠ '%') (rest : Escaped payload text) : Escaped (ch :: payload) (ch :: text)
  | percent {payload text : Text} {high low : Char} {x y : Nat} (first : hexDigit high = some x) (second : hexDigit low = some y)
    (rest : Escaped payload text) : Escaped ('%' :: high :: low :: payload) (Char.ofNat (x * 16 + y) :: text)

variable {base64 : Bool} {payload text wrapped : Text} {ch : Char}

theorem pushBack_filter (base64 : Bool) (ch : Char) (text : Text) :
    pushBack base64 ch (text.filter (keeps base64)) = (ch :: text).filter (keeps base64) := by
  rw [pushBack, List.filter_cons]

theorem unescape_plain (kept : ch ≠ '%') : unescape base64 (ch :: payload) = pushBack base64 ch (unescape base64 payload) := by
  rw [unescape.eq_def]
  split
  next same => cases same
  next same => exact absurd (List.cons.inj same).1 kept
  next same =>
    obtain ⟨rfl, rfl⟩ := List.cons.inj same
    rfl

theorem unescape_of_escaped (escaped : Escaped payload text) : unescape base64 payload = text.filter (keeps base64) := by
  induction escaped with
  | nil => rfl
  | plain kept _ ih => rw [unescape_plain kept, ih, pushBack_filter]
  | percent first second _ ih => simp only [unescape, first, second, ih, pushBack_filter]

theorem unescape_of_not_mem (none' : '%' ∉ payload) : unescape base64 payload = payload.filter (keeps base64) := by
  induction payload with
  | nil => rfl
  | cons ch payload ih =>
    rw [List.mem_cons, not_or] at none'
    rw [unescape_plain fun same => none'.1 same.symm, ih none'.2, pushBack_filter]

theorem wholePayload_eq (base64 : Bool) (payload : Text) : wholePayload base64 payload = payload.filter (keeps base64) := by
  rw [wholePayload]
  cases base64 with
  | false =>
    rw [Bool.false_and, if_neg (by simp)]
    exact (List.filter_eq_self.mpr fun _ _ => rfl).symm
  | true =>
    rw [Bool.true_and]
    split
    next => rfl
    next none' =>
      rw [Bool.or_eq_true, List.contains_iff_mem, List.contains_iff_mem, not_or] at none'
      refine (List.filter_eq_self.mpr fun ch there => ?_).symm
      have kept : ch ≠ '\r' ∧ ch ≠ '\n' := ⟨fun same => none'.1 (same ▸ there), fun same => none'.2 (same ▸ there)⟩
      simp [keeps, isBreak, kept]

theorem wholePayload_eq_unescape (none' : '%' ∉ payload) : wholePayload base64 payload = unescape base64 payload := by
  rw [wholePayload_eq, unescape_of_not_mem none']

end Payloads

section Results

variable {media payload text wrapped bytes : Text} {limit : Int}

theorem dataGet_eq (plain : ',' ∉ media) (limit : Int) (payload : Text) :
    dataGet limit (chars "data:" ++ media ++ ',' :: payload) =
      if payload = [] then []
      else
        let base64 := endsWith (chars "data:" ++ media) (chars ";base64")
        let data := unescape base64 payload
        if exceeds limit data then []
        else if base64 then
          if exceeds limit (urlSafeBase64Decode data) then [] else urlSafeBase64Decode data
        else data := by
  have starts : startsWith (chars "data:" ++ media ++ ',' :: payload) (chars "data:") = true := by
    rw [startsWith, List.isPrefixOf_iff_prefix, List.append_assoc]
    exact List.prefix_append _ _
  have cut : cutAt [','] (chars "data:" ++ media ++ ',' :: payload) = some (chars "data:" ++ media, payload) := by
    refine cutAt_mark_iff.mpr ⟨rfl, fun there => (List.mem_append.mp there).elim (by decide) plain⟩
  rw [dataGet, starts, cut]
  simp only [Bool.not_true, Bool.false_eq_true, if_false]
  by_cases escapes : '%' ∈ payload
  · rw [if_neg (not_not.mpr escapes)]
  · rw [if_pos escapes, wholePayload_eq_unescape escapes]

def CarriesBase64 (payload text : Text) : Prop :=
  ∃ wrapped, Escaped payload wrapped ∧ (wrapped.filter fun ch => !isBreak ch) = text

theorem unescape_of_carries (carries : CarriesBase64 payload text) : unescape true payload = text := by
  obtain ⟨wrapped, escaped, rfl⟩ := carries
  rw [unescape_of_escaped escaped]
  rfl

theorem exceeds_eq_false (fits : 0 < limit → text.length ≤ limit) : exceeds limit text = false := by
  rw [exceeds, Bool.and_eq_false_iff, decide_eq_false_iff_not, decide_eq_false_iff_not]
  by_cases positive : 0 < limit
  · have := fits positive
    exact .inr (by omega)
  · exact .inl positive

theorem length_le_of_text (base64 : Base64Text text bytes) : bytes.length ≤ text.length := by
  obtain ⟨letters, k, rfl, spelled, -⟩ := base64.shape
  rw [List.length_append, Parser.StrictBase64.length_of_spelled spelled]
  omega

theorem dataGet_base64 (plain : ',' ∉ media) (carries : CarriesBase64 payload text) (base64 : Base64Text text bytes)
    (fits : 0 < limit → text.length ≤ limit) : dataGet limit (chars "data:" ++ (media ++ chars ";base64") ++ ',' :: payload) = bytes := by
  have plain' : ',' ∉ media ++ chars ";base64" := fun there => (List.mem_append.mp there).elim plain (by decide)
  have marked : endsWith (chars "data:" ++ (media ++ chars ";base64")) (chars ";base64") = true := by
    rw [endsWith, List.isSuffixOf_iff_suffix, ← List.append_assoc]
    exact List.suffix_append _ _
  rw [dataGet_eq plain']
  by_cases empty : payload = []
  · rw [if_pos empty, ← base64.candidate, ← unescape_of_carries carries, empty]
    rfl
  · have short := length_le_of_text base64
    have fits' : 0 < limit → bytes.length ≤ limit := fun positive => by
      have := fits positive
      omega
    rw [if_neg empty]
    simp only [marked, unescape_of_carries carries, exceeds_eq_false fits, base64.candidate, exceeds_eq_false fits', if_true,
      Bool.false_eq_true, if_false]

theorem dataGet_plain (plain : ',' ∉ media) (unmarked : endsWith (chars "data:" ++ media) (chars ";base64") = false)
    (escaped : Escaped payload bytes) (fits : 0 < limit → bytes.length ≤ limit) :
    dataGet limit (chars "data:" ++ media ++ ',' :: payload) = bytes := by
  have whole : unescape false payload = bytes := by
    rw [unescape_of_escaped escaped]
    exact List.filter_eq_self.mpr fun _ _ => rfl
  rw [dataGet_eq plain]
  by_cases empty : payload = []
  · rw [if_pos empty, ← whole, empty]
    rfl
  · rw [if_neg empty]
    simp only [unmarked, whole, exceeds_eq_false fits, Bool.false_eq_true, if_false]

theorem dataGet_delivers (limit : Int) (media payload bytes : Text) (plain : ',' ∉ media) :
    (∀ text, Base64Text text bytes → CarriesBase64 payload text → (0 < limit → text.length ≤ limit) →
      dataGet limit (chars "data:" ++ (media ++ chars ";base64") ++ ',' :: payload) = bytes) ∧
    (endsWith (chars "data:" ++ media) (chars ";base64") = false → Escaped payload bytes → (0 < limit → bytes.length ≤ limit) →
      dataGet limit (chars "data:" ++ media ++ ',' :: payload) = bytes) ∧
    ('%' ∉ payload → ∀ base64, wholePayload base64 payload = unescape base64 payload) :=
  ⟨fun _ base64 carries => dataGet_base64 plain carries base64, dataGet_plain plain, fun none' _ => wholePayload_eq_unescape none'⟩

theorem base64Text_abc : Base64Text (chars "YWJj") (chars "abc") := by
  have byte : (chars "abc").all (fun c => c.toNat < 256) = true := by decide
  refine ⟨fun c there => of_decide_eq_true (List.all_eq_true.mp byte c there), chars "YWJj", ?_, .inl rfl⟩
  refine .cons ?_ (.cons ?_ (.cons ?_ (.cons ?_ .nil)))
  all_goals exact .inl rfl

theorem dataGet_delivers_wrapped :
    dataGet 10 (chars "data:" ++ (chars "text/plain" ++ chars ";base64") ++ ',' :: chars "Y%57\nJj") = chars "abc" := by
  have escaped : Escaped (chars "Y%57\nJj") (chars "YW\nJj") :=
    .plain (by decide) (@Escaped.percent (chars "\nJj") (chars "\nJj") '5' '7' 5 7 (by decide) (by decide)
      (.plain (by decide) (.plain (by decide) (.plain (by decide) .nil))))
  exact (dataGet_delivers 10 (chars "text/plain") (chars "Y%57\nJj") (chars "abc") (by decide)).1 (chars "YWJj") base64Text_abc
    ⟨_, escaped, by decide⟩ (fun _ => by decide)

theorem dataGet_limits_text : Base64Text (chars "YWJj") (chars "abc") ∧ CarriesBase64 (chars "YWJj") (chars "YWJj") ∧
    (chars "abc").length ≤ 3 ∧ dataGet 3 (chars "data:;base64,YWJj") = [] := by
  refine ⟨base64Text_abc, ⟨chars "YWJj", ?_, by decide⟩, by decide, by decide⟩
  exact .plain (by decide) (.plain (by decide) (.plain (by decide) (.plain (by decide) .nil)))

end Results

end SubConverter.Handler.DataUrl
