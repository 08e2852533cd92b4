import Mathlib.Tactic

set_option autoImplicit false

namespace SubConverter.SixBits

/-! Bytes as groups of six bits, and back. -/

-- Zero bits fill the last group up.
def sextets : List Nat → List Nat
  | [] => []
  | [a] => [a / 4 % 64, a % 4 * 16]
  | [a, b] => [a / 4 % 64, a % 4 * 16 + b / 16 % 16, b % 16 * 4]
  | a :: b :: c :: rest => a / 4 % 64 :: (a % 4 * 16 + b / 16 % 16) :: (b % 16 * 4 + c / 64 % 4) :: c % 64 :: sextets rest

-- Bits that do not fill a byte are left out.
def octets : List Nat → List Nat
  | [] | [_] => []
  | [w, x] => [(w * 4 + x / 16 % 4) % 256]
  | [w, x, y] => [(w * 4 + x / 16 % 4) % 256, x % 16 * 16 + y / 4 % 16]
  | w :: x :: y :: z :: rest => (w * 4 + x / 16 % 4) % 256 :: (x % 16 * 16 + y / 4 % 16) :: (y % 4 * 64 + z) % 256 :: octets rest

def paddingLength (bytes : Nat) : Nat := (3 - bytes % 3) % 3

section Masks

theorem masked_shift (n low width : Nat) : (n &&& (2 ^ width - 1) <<< low) >>> low = n / 2 ^ low % 2 ^ width := by
  rw [Nat.shiftRight_and_distrib, Nat.shiftLeft_shiftRight, Nat.and_two_pow_sub_one_eq_mod, Nat.shiftRight_eq_div_pow]

theorem masked_left (n width by' : Nat) : (n &&& (2 ^ width - 1)) <<< by' = n % 2 ^ width * 2 ^ by' := by
  rw [Nat.and_two_pow_sub_one_eq_mod, Nat.shiftLeft_eq]

end Masks

section Groups

variable {bytes groups : List Nat}

theorem sextets_lt {d : Nat} (there : d ∈ sextets bytes) : d < 64 := by
  fun_induction sextets bytes with
  | case1 => cases there
  | case2 | case3 =>
    simp only [List.mem_cons, List.not_mem_nil, or_false] at there
    omega
  | case4 a b c rest ih =>
    simp only [List.mem_cons] at there
    rcases there with same | same | same | same | later
    · omega
    · omega
    · omega
    · omega
    · exact ih later

theorem octets_lt {b : Nat} (there : b ∈ octets groups) : b < 256 := by
  fun_induction octets groups with
  | case1 | case2 => cases there
  | case3 | case4 =>
    simp only [List.mem_cons, List.not_mem_nil, or_false] at there
    omega
  | case5 w x y z rest ih =>
    simp only [List.mem_cons] at there
    rcases there with same | same | same | later
    · omega
    · omega
    · omega
    · exact ih later

theorem length_sextets (bytes : List Nat) : (sextets bytes).length = (bytes.length * 4 + 2) / 3 := by
  fun_induction sextets bytes with
  | case1 | case2 | case3 => simp
  | case4 a b c rest ih =>
    simp only [List.length_cons, ih]
    omega

theorem octets_sextets (small : ∀ b ∈ bytes, b < 256) : octets (sextets bytes) = bytes := by
  fun_induction sextets bytes with
  | case1 => rfl
  | case2 a =>
    have first := small a (by simp)
    rw [octets, show (a / 4 % 64 * 4 + a % 4 * 16 / 16 % 4) % 256 = a by omega]
  | case3 a b =>
    have first := small a (by simp)
    have second := small b (by simp)
    rw [octets, show (a / 4 % 64 * 4 + (a % 4 * 16 + b / 16 % 16) / 16 % 4) % 256 = a by omega,
      show (a % 4 * 16 + b / 16 % 16) % 16 * 16 + b % 16 * 4 / 4 % 16 = b by omega]
  | case4 a b c rest ih =>
    have first := small a (by simp)
    have second := small b (by simp)
    have third := small c (by simp)
    rw [octets, show (a / 4 % 64 * 4 + (a % 4 * 16 + b / 16 % 16) / 16 % 4) % 256 = a by omega,
      show (a % 4 * 16 + b / 16 % 16) % 16 * 16 + (b % 16 * 4 + c / 64 % 4) / 4 % 16 = b by omega,
      show ((b % 16 * 4 + c / 64 % 4) % 4 * 64 + c % 64) % 256 = c by omega,
      ih fun d there => small d (.tail _ (.tail _ (.tail _ there)))]

end Groups

end SubConverter.SixBits
