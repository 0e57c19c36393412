import CommandVM.Proofs.IntegerOperators
import Mathlib.Data.Rat.Floor

/-!
# Floor division on words

The quotient that is rounded to zero and its remainder are mended where the remainder does not have
the sign of the divisor. No step of this leaves 64 bits, and the results are exact; only the least
word divided by -1 has a quotient that does not fit.
-/

namespace CommandVM.Operator

variable {a b : Int64} {x y : Int}

/-! ### Exact quotients and remainders -/

theorem fdiv_eq_floor (x y : Int) : x.fdiv y = ⌊(x : ℚ) / y⌋ := by
  have upward (x : Int) (n : Nat) : x.fdiv n = ⌊(x : ℚ) / n⌋ := by
    rw [Int.fdiv_eq_ediv_of_nonneg x (Int.natCast_nonneg n), Rat.floor_intCast_div_natCast]
  obtain ⟨n, rfl | rfl⟩ := y.eq_nat_or_neg
  · simpa using upward x n
  · have flipped := upward (-x) n
    rw [← Int.neg_fdiv_neg, neg_neg] at flipped
    simpa [neg_div_neg_eq, div_neg, neg_div] using flipped

theorem fmod_between (nonzero : y ≠ 0) :
    0 ≤ x.fmod y ∧ x.fmod y < y ∨ y < x.fmod y ∧ x.fmod y ≤ 0 := by
  rcases Int.lt_or_gt_of_ne nonzero with negative | positive
  · have above := Int.fmod_nonneg_of_pos (-x) (show 0 < -y by omega)
    have below := Int.fmod_lt_of_pos (-x) (show 0 < -y by omega)
    rw [Int.neg_fmod_neg] at above below
    omega
  · exact .inl ⟨Int.fmod_nonneg_of_pos x positive, Int.fmod_lt_of_pos x positive⟩

/-- A divisor that leaves a remainder is not a unit, so the quotient has a bit to spare. -/
theorem two_mul_natAbs_tdiv_le (inexact : x.tmod y ≠ 0) :
    2 * (x.tdiv y).natAbs ≤ x.natAbs := by
  have proper : 2 ≤ y.natAbs ∨ y = 0 := by
    by_contra unit
    obtain rfl | rfl : y = 1 ∨ y = -1 := by omega
    · simp at inexact
    · simp at inexact
  rcases proper with proper | rfl
  · have halved : x.natAbs / y.natAbs ≤ x.natAbs / 2 := Nat.div_le_div_left proper (by decide)
    have size : (x.tdiv y).natAbs = x.natAbs / y.natAbs := Int.natAbs_tdiv x y
    omega
  · simp

/-! ### Words -/

theorem natAbs_toInt_le (a : Int64) : a.toInt.natAbs ≤ 2 ^ 63 := by
  have above := a.le_toInt
  have below := a.toInt_lt
  omega

theorem bmod_of_between (low : -2 ^ 63 ≤ x) (high : x < 2 ^ 63) : x.bmod (2 ^ 64) = x :=
  Int.bmod_eq_of_le (by omega) (by omega)

/-- Only the least word divided by -1 has a quotient that does not fit. -/
theorem fdiv_lt_or (nonzero : b.toInt ≠ 0) :
    a.toInt.fdiv b.toInt < 2 ^ 63 ∨ a.toInt = -2 ^ 63 ∧ b.toInt = -1 := by
  have bound := natAbs_toInt_le a
  have below := a.toInt_lt
  have small := Int.natAbs_fdiv_le_natAbs a.toInt b.toInt
  have split := Int.mul_fdiv_add_fmod a.toInt b.toInt
  have between := fmod_between (x := a.toInt) nonzero
  by_cases fits : a.toInt.fdiv b.toInt < 2 ^ 63
  · exact .inl fits
  · have whole : a.toInt.fdiv b.toInt = 2 ^ 63 := by omega
    rw [whole] at split
    omega

/-- Where the quotient is mended, one less than it and the mended remainder still fit. -/
theorem mended_toInt (inexact : a.toInt.tmod b.toInt ≠ 0)
    (apart : a.toInt.tmod b.toInt < 0 ↔ ¬ b.toInt < 0) :
    (a / b - 1).toInt = (a / b).toInt - 1 ∧ (a % b + b).toInt = (a % b).toInt + b.toInt := by
  have bound := natAbs_toInt_le a
  have spare := two_mul_natAbs_tdiv_le inexact
  have quotient : (a / b).toInt = a.toInt.tdiv b.toInt := by
    rw [Int64.toInt_div, bmod_of_between (by omega) (by omega)]
  have remainder := Int64.toInt_mod a b
  have above := b.le_toInt
  have below := b.toInt_lt
  constructor
  · rw [Int64.toInt_sub, quotient, Int64.toInt_one, bmod_of_between (by omega) (by omega)]
  · have less := natAbs_tmod_le a.toInt b.toInt
    rw [Int64.toInt_add, remainder, bmod_of_between (by omega) (by omega)]

theorem toInt_floorDiv (nonzero : b ≠ 0) (fits : ¬ (a = Int64.minValue ∧ b = -1)) :
    (floorDiv a b).toInt = ⌊(a.toInt : ℚ) / b.toInt⌋ := by
  have bound := natAbs_toInt_le a
  have small := Int.natAbs_fdiv_le_natAbs a.toInt b.toInt
  have high : a.toInt.fdiv b.toInt < 2 ^ 63 := by
    rcases fdiv_lt_or (a := a) (toInt_ne_zero nonzero) with high | ⟨least, negative⟩
    · exact high
    · exact absurd ⟨Int64.toInt_inj.mp least, Int64.toInt_inj.mp negative⟩ fits
  rw [floorDiv_eq nonzero, Int64.toInt_ofInt, ← fdiv_eq_floor]
  exact bmod_of_between (by omega) high

theorem toInt_floorMod (nonzero : b ≠ 0) : (floorMod a b).toInt = a.toInt.fmod b.toInt := by
  have above := b.le_toInt
  have below := b.toInt_lt
  have between := fmod_between (x := a.toInt) (toInt_ne_zero nonzero)
  rw [floorMod_eq nonzero, Int64.toInt_ofInt, ← Int.fmod_def]
  exact bmod_of_between (by omega) (by omega)

theorem floorDiv_mul_add_floorMod (nonzero : b ≠ 0) : floorDiv a b * b + floorMod a b = a := by
  have exact_sum : a.toInt.fdiv b.toInt * b.toInt +
      (a.toInt - b.toInt * a.toInt.fdiv b.toInt) = a.toInt := by ring
  calc floorDiv a b * b + floorMod a b
      = Int64.ofInt (a.toInt.fdiv b.toInt) * Int64.ofInt b.toInt +
          Int64.ofInt (a.toInt - b.toInt * a.toInt.fdiv b.toInt) := by
        rw [floorDiv_eq nonzero, floorMod_eq nonzero, Int64.ofInt_toInt]
    _ = Int64.ofInt a.toInt := by rw [← Int64.ofInt_mul, ← Int64.ofInt_add, exact_sum]
    _ = a := Int64.ofInt_toInt a

/-- Division and remainder of words by a divisor that is not zero: no mended step wraps, the
quotient is rounded down but for the one that does not fit, the remainder is exact with the sign of
the divisor, and the two give back the dividend. -/
theorem floor_division_exact (nonzero : b ≠ 0) :
    (a % b ≠ 0 → decide (a % b < 0) ≠ decide (b < 0) →
      (a / b - 1).toInt = (a / b).toInt - 1 ∧ (a % b + b).toInt = (a % b).toInt + b.toInt) ∧
    (¬ (a = Int64.minValue ∧ b = -1) → (floorDiv a b).toInt = ⌊(a.toInt : ℚ) / b.toInt⌋) ∧
    floorDiv Int64.minValue (-1) = Int64.minValue ∧
    (floorMod a b).toInt = a.toInt - b.toInt * ⌊(a.toInt : ℚ) / b.toInt⌋ ∧
    (floorMod a b = 0 ∨ (floorMod a b).toInt.sign = b.toInt.sign) ∧
    (floorMod a b).toInt.natAbs < b.toInt.natAbs ∧
    floorDiv a b * b + floorMod a b = a := by
  have proper := toInt_ne_zero nonzero
  have between := fmod_between (x := a.toInt) proper
  have remainder := toInt_floorMod (a := a) nonzero
  refine ⟨?_, toInt_floorDiv nonzero, by decide, ?_, ?_, ?_, floorDiv_mul_add_floorMod nonzero⟩
  · intro inexact apart
    have mends : (a % b != 0 && decide (a % b < 0) != decide (b < 0)) = true := by
      simp [inexact, apart]
    have mends := mends_iff.mp mends
    rw [Int64.toInt_mod] at mends
    exact mended_toInt mends.1 mends.2
  · rw [remainder, Int.fmod_def, fdiv_eq_floor]
  · by_cases zero : a.toInt.fmod b.toInt = 0
    · exact .inl (Int64.toInt_inj.mp (remainder.trans zero))
    · right
      rw [remainder]
      rcases between with ⟨above, below⟩ | ⟨below, above⟩
      · rw [Int.sign_eq_one_of_pos (by omega), Int.sign_eq_one_of_pos (by omega)]
      · rw [Int.sign_eq_neg_one_of_neg (by omega), Int.sign_eq_neg_one_of_neg (by omega)]
  · rw [remainder]
    omega

theorem floor_division_below_zero :
    floorDiv (-7) 2 = -4 ∧ floorMod (-7) 2 = 1 ∧ (-7 : Int64) % 2 ≠ 0 ∧
      ((-7 : Int64) / 2 - 1).toInt = ((-7 : Int64) / 2).toInt - 1 ∧
      (floorDiv (-7) 2).toInt = ⌊((-7 : Int64).toInt : ℚ) / (2 : Int64).toInt⌋ := by
  have seven := floor_division_exact (a := -7) (b := 2) (by decide)
  exact ⟨by decide, by decide, by decide, (seven.1 (by decide) (by decide)).1,
    seven.2.1 (by decide)⟩

end CommandVM.Operator
