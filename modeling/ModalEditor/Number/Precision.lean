/-!
# Double precision

Numbers are kept to 53 significant binary digits. `Precision.round` rounds a whole number to the
nearest one that can be kept, a tie going to the one whose last binary digit is zero; from 2¹⁰²⁴ on all
numbers count as one, the infinite. Every whole number up to 2⁵³ is kept as it is
(`Precision.round_of_le`), and rounding never brings a larger one below 2⁵³ (`Precision.le_round`).
-/

namespace ModalEditor

namespace Precision

/-- How many significant binary digits a number has. -/
def digits : Nat := 53

/-- The whole number up to which every one is kept: 2⁵³. -/
def limit : Nat := Nat.pow 2 digits

/-- A quotient rounded to the nearest whole number, a tie to the even one. -/
def quotient (a b : Nat) : Nat :=
  if 2 * (a % b) < b ∨ 2 * (a % b) = b ∧ a / b % 2 = 0 then a / b else a / b + 1

/-- How far apart the numbers are that can be kept and have the size of `n`. -/
def spacing (n : Nat) : Nat := Nat.pow 2 (n.log2 + 1 - digits)

/-- The nearest natural number that can be kept. -/
def roundNat (n : Nat) : Nat := quotient n (spacing n) * spacing n

/-- How many binary digits a number before the point has at most. -/
def capacity : Nat := 1024

/-- A number of size `n` is beyond all that can be kept. -/
def isInfinite (n : Nat) : Bool := capacity ≤ (roundNat n).log2

/-- The size of the number that is kept for a number of size `n`. The infinite counts as the least
number that is beyond all that can be kept. -/
def magnitude (n : Nat) : Nat := if isInfinite n then Nat.pow 2 capacity else roundNat n

/-- The nearest whole number that can be kept, or the infinite. -/
def round (i : Int) : Int := if i < 0 then -(magnitude i.natAbs : Int) else magnitude i.natAbs

/-! ## Laws -/

theorem le_quotient (a b : Nat) : a / b ≤ quotient a b := by
  unfold quotient
  split <;> omega

theorem quotient_one (a : Nat) : quotient a 1 = a := by
  simp [quotient, Nat.mod_one]

theorem limit_eq : limit = 9007199254740992 := rfl

theorem limit_le_pow {n : Nat} (h : digits ≤ n) : limit ≤ Nat.pow 2 n :=
  Nat.pow_le_pow_right (by decide) h

/-- Natural numbers up to 2⁵³ are kept as they are. -/
theorem roundNat_of_le {n : Nat} (h : n ≤ limit) : roundNat n = n := by
  rcases Nat.lt_or_eq_of_le h with hlt | rfl
  · have hs : spacing n = 1 := by
      unfold spacing
      by_cases h0 : n = 0
      · subst h0; rfl
      · rw [Nat.sub_eq_zero_of_le ((Nat.log2_lt h0).2 hlt)]
    rw [roundNat, hs, quotient_one, Nat.mul_one]
  · decide

/-- Numbers up to 2⁵³ are far from the infinite. -/
theorem isInfinite_of_le {n : Nat} (h : n ≤ limit) : isInfinite n = false := by
  unfold isInfinite capacity
  rw [roundNat_of_le h, decide_eq_false_iff_not, Nat.not_le]
  by_cases h0 : n = 0
  · subst h0; decide
  · have := limit_eq
    exact Nat.lt_trans ((Nat.log2_lt h0).2 (show n < 2 ^ 54 by omega)) (by decide)

/-- Rounding keeps the number of binary digits, or makes one more of them. -/
theorem two_pow_log2_le_roundNat {n : Nat} (h : n ≠ 0) : Nat.pow 2 n.log2 ≤ roundNat n := by
  have hd : spacing n ∣ 2 ^ n.log2 := Nat.pow_dvd_pow 2 (by unfold digits; omega)
  calc 2 ^ n.log2 = 2 ^ n.log2 / spacing n * spacing n := (Nat.div_mul_cancel hd).symm
    _ ≤ n / spacing n * spacing n :=
      Nat.mul_le_mul_right _ (Nat.div_le_div_right (Nat.log2_self_le h))
    _ ≤ roundNat n := Nat.mul_le_mul_right _ (le_quotient n _)

theorem round_of_le {i : Int} (h : i.natAbs ≤ limit) : round i = i := by
  unfold round magnitude
  rw [isInfinite_of_le h, roundNat_of_le h]
  simp only [Bool.false_eq_true, if_false]
  split <;> omega

/-- A whole number from 2⁵³ on stays there. -/
theorem le_round {i : Int} (h : limit ≤ i) : limit ≤ round i := by
  have hlimit := limit_eq
  have h0 : i.natAbs ≠ 0 := by omega
  have hlog : digits ≤ i.natAbs.log2 := (Nat.le_log2 h0).2 (by unfold digits; omega)
  have hpow : limit ≤ Nat.pow 2 i.natAbs.log2 := limit_le_pow hlog
  have : limit ≤ magnitude i.natAbs := by
    unfold magnitude
    split
    · exact limit_le_pow (show digits ≤ capacity by decide)
    · exact Nat.le_trans hpow (two_pow_log2_le_roundNat h0)
  unfold round
  rw [if_neg (by omega)]
  exact Int.ofNat_le.2 this

end Precision

end ModalEditor
