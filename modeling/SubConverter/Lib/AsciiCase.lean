import Mathlib

set_option autoImplicit false

namespace SubConverter

/-! Lower case and upper case, letter by letter. -/

variable {c mark : Char}

theorem toLower_of_not_isUpper (upper : c.isUpper = false) : c.toLower = c := by
  rw [Char.toLower]
  split
  next inside =>
    have letter : c.isUpper = true := by simpa [Char.isUpper] using inside
    rw [upper] at letter
    cases letter
  next => rfl

theorem toLower_of_isUpper (upper : c.isUpper = true) : c.toLower.toNat = c.toNat + 32 ∧ 65 ≤ c.toNat ∧ c.toNat ≤ 90 := by
  have inside : c.val ≥ 'A'.val ∧ c.val ≤ 'Z'.val := by simpa [Char.isUpper] using upper
  have range : 65 ≤ c.val.toNat ∧ c.val.toNat ≤ 90 := inside
  refine ⟨?_, range⟩
  have shifted : c.toLower.val = c.val + ('a'.val - 'A'.val) := by rw [Char.toLower, dif_pos inside]
  have sum := congrArg UInt32.toNat shifted
  rw [UInt32.toNat_add] at sum
  change c.toLower.toNat = (c.val.toNat + 32) % 4294967296 at sum
  change c.toLower.toNat = c.val.toNat + 32
  omega

theorem toLower_of_not_alphanum (other : c.isAlphanum = false) : c.toLower = c := by
  refine toLower_of_not_isUpper ?_
  simp only [Char.isAlphanum, Char.isAlpha, Bool.or_eq_false_iff] at other
  exact other.1.1

theorem isLower_of_isUpper (upper : c.isUpper = true) : c.toLower.isLower = true := by
  obtain ⟨shifted, low, high⟩ := toLower_of_isUpper upper
  have range : 97 ≤ c.toLower.val.toNat ∧ c.toLower.val.toNat ≤ 122 := by
    change 97 ≤ c.toLower.toNat ∧ c.toLower.toNat ≤ 122
    omega
  rw [Char.isLower, Bool.and_eq_true, decide_eq_true_eq, decide_eq_true_eq]
  exact range

theorem isUpper_toLower : c.toLower.isUpper = false := by
  cases upper : c.isUpper with
  | false => rw [toLower_of_not_isUpper upper, upper]
  | true =>
    obtain ⟨shifted, low, high⟩ := toLower_of_isUpper upper
    by_contra again
    have next := toLower_of_isUpper (Bool.not_eq_false _ ▸ again)
    omega

theorem toLower_toLower_char : c.toLower.toLower = c.toLower := toLower_of_not_isUpper isUpper_toLower

theorem eq_of_toLower (other : mark.isAlphanum = false) (lower : c.toLower = mark) : c = mark := by
  cases upper : c.isUpper with
  | false => exact (toLower_of_not_isUpper upper).symm.trans lower
  | true =>
    have letter := isLower_of_isUpper upper
    rw [lower] at letter
    simp [Char.isAlphanum, Char.isAlpha, letter] at other

theorem eq_of_toNat {first second : Char} (same : first.toNat = second.toNat) : first = second := Char.ext (UInt32.toNat_inj.mp same)

theorem toUpper_cases (c : Char) :
    (c.toUpper = c ∧ (c.toNat < 97 ∨ 122 < c.toNat)) ∨ (c.toUpper.toNat + 32 = c.toNat ∧ 97 ≤ c.toNat ∧ c.toNat ≤ 122) := by
  by_cases inside : c.val ≥ 'a'.val ∧ c.val ≤ 'z'.val
  · have range : 97 ≤ c.val.toNat ∧ c.val.toNat ≤ 122 := inside
    have shifted : c.toUpper.val = c.val + ('A'.val - 'a'.val) := by rw [Char.toUpper, dif_pos inside]
    have sum := congrArg UInt32.toNat shifted
    rw [UInt32.toNat_add] at sum
    change c.toUpper.toNat = (c.val.toNat + 4294967264) % 4294967296 at sum
    refine .inr ⟨?_, range⟩
    change c.toUpper.toNat + 32 = c.val.toNat
    omega
  · refine .inl ⟨by rw [Char.toUpper, dif_neg inside], ?_⟩
    have range : ¬(97 ≤ c.val.toNat ∧ c.val.toNat ≤ 122) := inside
    change c.val.toNat < 97 ∨ 122 < c.val.toNat
    omega

theorem isDigit_iff : c.isDigit = true ↔ 48 ≤ c.toNat ∧ c.toNat ≤ 57 := by
  rw [Char.isDigit, Bool.and_eq_true, decide_eq_true_eq, decide_eq_true_eq]
  rfl

theorem toLower_cases (c : Char) :
    (c.toLower = c ∧ (c.toNat < 65 ∨ 90 < c.toNat)) ∨ (c.toLower.toNat = c.toNat + 32 ∧ 65 ≤ c.toNat ∧ c.toNat ≤ 90) := by
  cases upper : c.isUpper with
  | true => exact .inr (toLower_of_isUpper upper)
  | false =>
    refine .inl ⟨toLower_of_not_isUpper upper, ?_⟩
    by_contra inside
    have range : 65 ≤ c.val.toNat ∧ c.val.toNat ≤ 90 := by
      change 65 ≤ c.toNat ∧ c.toNat ≤ 90
      omega
    have letter : c.isUpper = true := by
      rw [Char.isUpper, decide_eq_true_eq]
      exact range
    rw [letter] at upper
    cases upper

theorem toLower_toUpper : c.toUpper.toLower = c.toLower := by
  rcases toUpper_cases c with ⟨same, -⟩ | ⟨shifted, low, high⟩
  · rw [same]
  · apply eq_of_toNat
    rcases toLower_cases c with ⟨same, -⟩ | ⟨-, -, less⟩
    · rcases toLower_cases c.toUpper with ⟨-, other⟩ | ⟨back, -, -⟩
      · omega
      · rw [same]
        omega
    · omega

theorem toUpper_toUpper : c.toUpper.toUpper = c.toUpper := by
  rcases toUpper_cases c.toUpper with ⟨same, -⟩ | ⟨-, low, high⟩
  · exact same
  · rcases toUpper_cases c with ⟨same, other⟩ | ⟨shifted, first, last⟩
    · rw [same] at low high
      omega
    · omega

theorem toUpper_eq_iff (other : mark.toNat < 65 ∨ 122 < mark.toNat ∨ (90 < mark.toNat ∧ mark.toNat < 97)) : c.toUpper = mark ↔ c = mark := by
  rcases toUpper_cases c with ⟨same, -⟩ | ⟨shifted, low, high⟩
  · rw [same]
  · constructor
    · rintro rfl
      omega
    · rintro rfl
      omega

end SubConverter
