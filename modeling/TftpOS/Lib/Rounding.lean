import Mathlib.Data.Nat.Size
import Mathlib.Tactic.Ring

/-!
# Rounding to a number of binary digits

A natural number of more than `p` binary digits lies between two multiples of a power of two
that have `p` digits; `roundBits p` is the nearer one, and of two equally near the one whose
last digit is even. This is how an integer becomes a binary floating-point number of precision
`p`. `roundBits_lt_iff` says which numbers stay below a power of two, so which of them a format
with that power as its bound can hold.
-/

namespace Lib

/-- The weight of the last of `p` digits. -/
def lastWeight (p a : ℕ) : ℕ := 2 ^ (a.size - p)

/-- The first `p` digits, after rounding. -/
def leadingDigits (p a : ℕ) : ℕ :=
  let q := a / lastWeight p a
  let r := a % lastWeight p a
  if lastWeight p a < 2 * r ∨ (2 * r = lastWeight p a ∧ q % 2 = 1) then q + 1 else q

/-- The nearest number with `p` binary digits before its zeros, ties to even. -/
def roundBits (p a : ℕ) : ℕ := leadingDigits p a * lastWeight p a

variable {p a m : ℕ}

theorem lastWeight_pos : 0 < lastWeight p a := Nat.two_pow_pos _

/-- Numbers of at most `p` digits are kept. -/
theorem roundBits_of_lt (h : a < 2 ^ p) : roundBits p a = a := by
  have hweight : lastWeight p a = 1 := by
    rw [lastWeight, Nat.sub_eq_zero_of_le (Nat.size_le.mpr h), pow_zero]
  rw [roundBits, leadingDigits, hweight]
  simp [Nat.mod_one]

/-- Rounding goes to the multiple below or to the one above. -/
theorem leadingDigits_bounds :
    a / lastWeight p a ≤ leadingDigits p a ∧ leadingDigits p a ≤ a / lastWeight p a + 1 := by
  rw [leadingDigits]
  split <;> omega

/-- Rounding does not pass a power of two above. -/
theorem roundBits_le_two_pow (h : a < 2 ^ m) : roundBits p a ≤ 2 ^ m := by
  have hle : a.size ≤ m := Nat.size_le.mpr h
  have hsplit : 2 ^ m = 2 ^ (m - (a.size - p)) * lastWeight p a := by
    rw [lastWeight, ← pow_add]
    congr 1
    omega
  have hlt : a / lastWeight p a < 2 ^ (m - (a.size - p)) := by
    rw [Nat.div_lt_iff_lt_mul lastWeight_pos, ← hsplit]
    exact h
  rw [roundBits, hsplit]
  exact Nat.mul_le_mul_right _ (leadingDigits_bounds.2.trans hlt)

/-- Rounding does not pass a power of two below. -/
theorem two_pow_le_roundBits (hp : 0 < p) (h : 2 ^ m ≤ a) : 2 ^ m ≤ roundBits p a := by
  have hsize : m < a.size := Nat.lt_size.mpr h
  have hfull : 2 ^ (a.size - 1) ≤ a := Nat.lt_size.mp (by omega)
  have hsplit : 2 ^ (a.size - 1) = 2 ^ (a.size - 1 - (a.size - p)) * lastWeight p a := by
    rw [lastWeight, ← pow_add]
    congr 1
    omega
  calc 2 ^ m ≤ 2 ^ (a.size - 1) := Nat.pow_le_pow_right (by decide) (by omega)
    _ = 2 ^ (a.size - 1 - (a.size - p)) * lastWeight p a := hsplit
    _ ≤ a / lastWeight p a * lastWeight p a := by
      refine Nat.mul_le_mul_right _ ?_
      rw [Nat.le_div_iff_mul_le lastWeight_pos, ← hsplit]
      exact hfull
    _ ≤ roundBits p a := Nat.mul_le_mul_right _ leadingDigits_bounds.1

/-- **Which numbers round below a power of two**: those that are nearer to the last number
below it than to the power, which is even and so takes the tie. -/
theorem roundBits_lt_iff (hp : 0 < p) (hm : p < m) :
    roundBits p a < 2 ^ m ↔ a < 2 ^ m - 2 ^ (m - p - 1) := by
  have hhalf : 2 ^ (m - p - 1) ≤ 2 ^ (m - 1) := Nat.pow_le_pow_right (by decide) (by omega)
  have hdouble : 2 ^ m = 2 * 2 ^ (m - 1) := by
    rw [← pow_succ']
    congr 1
    omega
  rcases lt_trichotomy a.size m with hlt | heq | hgt
  · -- fewer digits
    have hsmall : a < 2 ^ (m - 1) := Nat.size_le.mp (by omega)
    have hround := roundBits_le_two_pow (p := p) hsmall
    have hpos := Nat.two_pow_pos (m - 1)
    omega
  · -- as many digits as the last number below the power
    have hbelow : a < 2 ^ m := Nat.size_le.mp heq.le
    have hweight : lastWeight p a = 2 * 2 ^ (m - p - 1) := by
      rw [lastWeight, heq, ← pow_succ']
      congr 1
      omega
    have hpower : 2 ^ m = 2 ^ p * lastWeight p a := by
      rw [lastWeight, heq, ← pow_add]
      congr 1
      omega
    have heven : 2 ^ p % 2 = 0 := Nat.two_pow_mod_two_eq_zero.mpr hp
    have hq : a / lastWeight p a < 2 ^ p := by
      rw [Nat.div_lt_iff_lt_mul lastWeight_pos, ← hpower]
      exact hbelow
    rw [roundBits, hpower, Nat.mul_lt_mul_right lastWeight_pos]
    have hdigits := Nat.div_add_mod' a (lastWeight p a)
    have hr := Nat.mod_lt a (lastWeight_pos (p := p) (a := a))
    rcases Nat.lt_or_ge (a / lastWeight p a + 1) (2 ^ p) with hroom | hfull
    · have hnext := Nat.mul_le_mul_right (lastWeight p a) (Nat.succ_le_of_lt hroom)
      rw [Nat.succ_mul, Nat.succ_mul] at hnext
      refine iff_of_true (leadingDigits_bounds.2.trans_lt hroom) ?_
      omega
    · -- the digits are all ones, and odd
      have hones : 2 ^ p = a / lastWeight p a + 1 := by omega
      have hsum := Nat.add_one_mul (a / lastWeight p a) (lastWeight p a)
      rw [leadingDigits, hones]
      split <;> omega
  · -- more digits
    have hlarge : 2 ^ m ≤ a := Nat.lt_size.mp hgt
    have hround := two_pow_le_roundBits hp hlarge
    exact iff_of_false hround.not_gt ((Nat.sub_le _ _).trans hlarge).not_gt

end Lib
