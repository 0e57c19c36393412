import CommandVM.Operator
import CommandVM.Proofs.ValueViews
import Mathlib.Data.Int.Bitwise

/-!
# Operators on integers

On two integers an operator computes what it stands for exactly and reduces the result to 64 bits.
The result is wide when an operand is, else as narrow as it fits. Nothing that is computed from two
native operands has to be reduced, but for left shifts.
-/

namespace CommandVM

/-! ### Exact results -/

/-- The exact result of an operator on two integers, or its fault. -/
def BinaryOp.exact (op : BinaryOp) (x y : Int) : Except Fault Int :=
  match op with
  | .add => .ok (x + y)
  | .sub => .ok (x - y)
  | .mult => .ok (x * y)
  | .div => if y = 0 then .error .divideByZero else .ok (x.fdiv y)
  | .mod => if y = 0 then .error .divideByZero else .ok (x - y * x.fdiv y)
  | .bitor => .ok (x.lor y)
  | .bitxor => .ok (x.xor y)
  | .bitand => .ok (x.land y)
  | .lshift => if y < 0 then .error .negativeShift else .ok (x * 2 ^ y.toNat)
  | .rshift => if y < 0 then .error .negativeShift else .ok (x.fdiv (2 ^ y.toNat))

/-- The operator is a shift. -/
def BinaryOp.isShift : BinaryOp → Bool
  | .lshift | .rshift => true
  | _ => false

namespace Number

/-- The integer that a number stands for; none for a double. -/
def value? (n : Number) : Option Int := n.toInt64?.map Int64.toInt

/-- The number is the integer reduced to 64 bits: wide on demand, else as narrow as it fits. -/
structure Reduces (n : Number) (wide : Bool) (z : Int) : Prop where
  value : n.value? = some (z.bmod (2 ^ 64))
  tag : n.isWide = (wide || !fitsInt (z.bmod (2 ^ 64)))

theorem fitsInt_iff {z : Int} : fitsInt z = true ↔ -2 ^ 31 ≤ z ∧ z < 2 ^ 31 := by simp [fitsInt]

theorem fitsInt_toInt (v : Int32) : fitsInt v.toInt = true :=
  fitsInt_iff.mpr ⟨v.le_toInt, v.toInt_lt⟩

theorem reduces_tagged (wide : Bool) (z : Int) :
    (Operator.tagged wide (Int64.ofInt z)).Reduces wide z := by
  have value : (Int64.ofInt z).toInt = z.bmod (2 ^ 64) := Int64.toInt_ofInt
  cases wide with
  | true => exact ⟨congrArg some value, rfl⟩
  | false =>
    have unfolded : Operator.tagged false (Int64.ofInt z) = ofInt64 (Int64.ofInt z) := rfl
    rw [unfolded, ofInt64, value]
    split
    · rename_i fits
      refine ⟨?_, by rw [fits]; rfl⟩
      rw [← value] at fits ⊢
      simp only [value?, toInt64?, toInt64_toInt32 fits, Option.map_some]
    · rename_i large
      exact ⟨congrArg some value, by rw [Bool.eq_false_iff.mpr large]; rfl⟩

end Number

/-! ### Bits of integers -/

section Bits

variable {w : Nat} {a b : Int}

theorem getLsbD_ofInt (w : Nat) (z : Int) (k : Nat) :
    (BitVec.ofInt w z).getLsbD k = (decide (k < w) && z.testBit k) := by
  cases z with
  | ofNat n => exact BitVec.getLsbD_ofNat w n k
  | negSucc n =>
    rw [BitVec.ofInt_negSucc_eq_not_ofNat, BitVec.getLsbD_not, BitVec.getLsbD_ofNat, Int.testBit]
    cases decide (k < w) <;> simp

theorem ofInt_lor : BitVec.ofInt w (a.lor b) = BitVec.ofInt w a ||| BitVec.ofInt w b := by
  apply BitVec.eq_of_getLsbD_eq
  intro k inside
  simp only [BitVec.getLsbD_or, getLsbD_ofInt, inside, decide_true, Bool.true_and,
    Int.testBit_lor]

theorem ofInt_xor : BitVec.ofInt w (a.xor b) = BitVec.ofInt w a ^^^ BitVec.ofInt w b := by
  apply BitVec.eq_of_getLsbD_eq
  intro k inside
  simp only [BitVec.getLsbD_xor, getLsbD_ofInt, inside, decide_true, Bool.true_and,
    Int.testBit_lxor]

theorem ofInt_land : BitVec.ofInt w (a.land b) = BitVec.ofInt w a &&& BitVec.ofInt w b := by
  apply BitVec.eq_of_getLsbD_eq
  intro k inside
  simp only [BitVec.getLsbD_and, getLsbD_ofInt, inside, decide_true, Bool.true_and,
    Int.testBit_land]

theorem ofInt_mul_two_pow (v : BitVec w) (n : Nat) :
    BitVec.ofInt w (v.toInt * 2 ^ n) = v <<< n := by
  have power : BitVec.ofInt w (2 ^ n) = BitVec.twoPow w n := by
    apply BitVec.eq_of_toNat_eq
    rw [BitVec.toNat_twoPow, show (2 : Int) ^ n = ((2 ^ n : Nat) : Int) by simp,
      BitVec.ofInt_natCast, BitVec.toNat_ofNat]
  rw [BitVec.ofInt_mul, BitVec.ofInt_toInt, power, BitVec.shiftLeft_eq_mul_twoPow]

end Bits

/-! ### Division -/

/-- The quotient rounded down, from the one rounded to zero. -/
theorem fdiv_eq_if {x y : Int} (nonzero : y ≠ 0) :
    x.fdiv y = if x.tmod y ≠ 0 ∧ (x.tmod y < 0 ↔ ¬ y < 0) then x.tdiv y - 1 else x.tdiv y := by
  have divides : y ∣ x ↔ x.tmod y = 0 := Int.dvd_iff_tmod_eq_zero
  have above : 0 ≤ x → 0 ≤ x.tmod y := Int.tmod_nonneg y
  have below (low : x ≤ 0) : x.tmod y ≤ 0 := by
    have flipped := Int.tmod_nonneg y (show 0 ≤ -x by omega)
    rw [Int.neg_tmod] at flipped
    omega
  rw [Int.fdiv_eq_tdiv]
  by_cases negative : y < 0
  · rw [Int.sign_eq_neg_one_of_neg negative]
    split <;> split <;> omega
  · rw [Int.sign_eq_one_of_pos (by omega)]
    split <;> split <;> omega

theorem sub_mul_fdiv {x y : Int} (nonzero : y ≠ 0) : x - y * x.fdiv y =
    if x.tmod y ≠ 0 ∧ (x.tmod y < 0 ↔ ¬ y < 0) then x.tmod y + y else x.tmod y := by
  have split := Int.mul_tdiv_add_tmod x y
  rw [fdiv_eq_if nonzero]
  split
  · rw [Int.mul_sub]
    omega
  · omega

namespace Operator

variable {x y r : Int64}

theorem toInt_ne_zero (nonzero : y ≠ 0) : y.toInt ≠ 0 :=
  fun zero => nonzero (Int64.toInt_inj.mp zero)

/-- The remainder is mended when it is not zero and its sign is not that of the divisor. -/
theorem mends_iff : (r != 0 && decide (r < 0) != decide (y < 0)) = true ↔
    r.toInt ≠ 0 ∧ (r.toInt < 0 ↔ ¬ y.toInt < 0) := by
  have zero : r = 0 ↔ r.toInt = 0 := Int64.toInt_inj.symm
  simp only [Bool.and_eq_true, bne_iff_ne, ne_eq, zero, decide_eq_decide, Int64.lt_iff_toInt_lt,
    Int64.toInt_zero]
  tauto

theorem div_eq_ofInt : x / y = Int64.ofInt (x.toInt.tdiv y.toInt) := by
  rw [← Int64.toInt_inj, Int64.toInt_div, Int64.toInt_ofInt]

theorem mod_eq_ofInt : x % y = Int64.ofInt (x.toInt.tmod y.toInt) := by
  rw [← Int64.toInt_mod, Int64.ofInt_toInt]

theorem floorDiv_eq (nonzero : y ≠ 0) :
    floorDiv x y = Int64.ofInt (x.toInt.fdiv y.toInt) := by
  unfold floorDiv
  simp only [mends_iff, Int64.toInt_mod]
  rw [fdiv_eq_if (toInt_ne_zero nonzero), div_eq_ofInt]
  split
  · rw [Int64.ofInt_sub]
    rfl
  · rfl

theorem floorMod_eq (nonzero : y ≠ 0) :
    floorMod x y = Int64.ofInt (x.toInt - y.toInt * x.toInt.fdiv y.toInt) := by
  unfold floorMod
  simp only [mends_iff, Int64.toInt_mod]
  rw [sub_mul_fdiv (toInt_ne_zero nonzero), mod_eq_ofInt]
  split
  · rw [Int64.ofInt_add, Int64.ofInt_toInt]
  · rfl

/-! ### Bits and shifts -/

theorem or_eq_ofInt : x ||| y = Int64.ofInt (x.toInt.lor y.toInt) := by
  apply Int64.toBitVec_inj.mp
  simp [ofInt_lor]

theorem xor_eq_ofInt : x ^^^ y = Int64.ofInt (x.toInt.xor y.toInt) := by
  apply Int64.toBitVec_inj.mp
  simp [ofInt_xor]

theorem and_eq_ofInt : x &&& y = Int64.ofInt (x.toInt.land y.toInt) := by
  apply Int64.toBitVec_inj.mp
  simp [ofInt_land]

theorem toNat_count (low : 0 ≤ y.toInt) (small : y.toInt < 64) :
    (y.toBitVec.smod 64).toNat = y.toInt.toNat := by
  have same : (y.toBitVec.smod 64).toInt = y.toInt := by
    rw [BitVec.toInt_smod]
    exact Int.fmod_eq_of_lt low small
  have value := BitVec.toInt_eq_toNat_cond (y.toBitVec.smod 64)
  have bound := (y.toBitVec.smod 64).isLt
  rw [same] at value
  split at value <;> omega

theorem le_count_iff : 64 ≤ y ↔ 64 ≤ y.toInt := Int64.le_iff_toInt_le

theorem shifted_left_eq (low : 0 ≤ y.toInt) :
    shifted true x y = Int64.ofInt (x.toInt * 2 ^ y.toInt.toNat) := by
  apply Int64.toBitVec_inj.mp
  rw [Int64.toBitVec_ofInt, show x.toInt = x.toBitVec.toInt from rfl, ofInt_mul_two_pow]
  simp only [shifted, if_true, le_count_iff]
  split
  · rw [BitVec.shiftLeft_eq_zero (by omega)]
    rfl
  · rw [Int64.toBitVec_shiftLeft, BitVec.shiftLeft_eq', toNat_count low (by omega)]

theorem toInt_shiftRight (low : 0 ≤ y.toInt) (small : y.toInt < 64) :
    (x >>> y).toInt = x.toInt.fdiv (2 ^ y.toInt.toNat) := by
  have shifted : (x >>> y).toInt = x.toBitVec.toInt >>> y.toInt.toNat := by
    rw [← toNat_count low small, ← BitVec.toInt_sshiftRight', ← Int64.toBitVec_shiftRight]
    rfl
  rw [shifted, Int.shiftRight_eq_div_pow, Int.fdiv_eq_ediv_of_nonneg _ (Int.pow_nonneg (by decide))]
  simp

/-- Past 62 places a right shift leaves only the sign. -/
theorem fdiv_two_pow {n : Nat} (large : 63 ≤ n) :
    x.toInt.fdiv (2 ^ n) = if x.toInt < 0 then -1 else 0 := by
  have above := x.le_toInt
  have below := x.toInt_lt
  have power : (2 : Int) ^ 63 ≤ 2 ^ n := by exact_mod_cast Nat.pow_le_pow_right (by decide) large
  rw [Int.fdiv_eq_ediv_of_nonneg _ (Int.pow_nonneg (by decide))]
  split
  · exact Int.ediv_eq_neg_one_of_neg_of_le (by omega) (by omega)
  · exact Int.ediv_eq_zero_of_lt (by omega) (by omega)

theorem shifted_right_eq (low : 0 ≤ y.toInt) :
    shifted false x y = Int64.ofInt (x.toInt.fdiv (2 ^ y.toInt.toNat)) := by
  simp only [shifted, Bool.false_eq_true, if_false, le_count_iff]
  split
  · have sign : (x >>> 63).toInt = x.toInt.fdiv (2 ^ 63) :=
      toInt_shiftRight (y := 63) (by decide) (by decide)
    rw [← Int64.ofInt_toInt (x >>> 63), sign, fdiv_two_pow (Nat.le_refl _),
      fdiv_two_pow (show 63 ≤ y.toInt.toNat by omega)]
  · rw [← toInt_shiftRight low (by omega), Int64.ofInt_toInt]

/-! ### All operators -/

theorem integerBinary_eq (op : BinaryOp) (x y : Int64) :
    integerBinary op x y = (op.exact x.toInt y.toInt).map Int64.ofInt := by
  have zero : (y == 0) = true ↔ y.toInt = 0 := by
    rw [beq_iff_eq]
    exact Int64.toInt_inj.symm
  have negative : y < 0 ↔ y.toInt < 0 := Int64.lt_iff_toInt_lt
  cases op with
  | add => simp [integerBinary, BinaryOp.exact, Except.map]
  | sub => simp [integerBinary, BinaryOp.exact, Except.map]
  | mult => simp [integerBinary, BinaryOp.exact, Except.map]
  | div =>
    simp only [integerBinary, BinaryOp.exact, zero]
    split
    · rfl
    · rename_i nonzero
      rw [floorDiv_eq fun same => nonzero (congrArg Int64.toInt same)]
      rfl
  | mod =>
    simp only [integerBinary, BinaryOp.exact, zero]
    split
    · rfl
    · rename_i nonzero
      rw [floorMod_eq fun same => nonzero (congrArg Int64.toInt same)]
      rfl
  | bitor => exact congrArg Except.ok or_eq_ofInt
  | bitxor => exact congrArg Except.ok xor_eq_ofInt
  | bitand => exact congrArg Except.ok and_eq_ofInt
  | lshift =>
    simp only [integerBinary, BinaryOp.exact, negative]
    split
    · rfl
    · rw [shifted_left_eq (by omega)]
      rfl
  | rshift =>
    simp only [integerBinary, BinaryOp.exact, negative]
    split
    · rfl
    · rw [shifted_right_eq (by omega)]
      rfl

theorem isWideResult_eq (op : BinaryOp) (a b : Number) :
    isWideResult op a b = (a.isWide || (!op.isShift && b.isWide)) := by
  cases op <;> simp [isWideResult, BinaryOp.isShift]

theorem binary_eq {op : BinaryOp} {a b : Number} (left : a.toInt64? = some x)
    (right : b.toInt64? = some y) :
    binary op a b = (op.exact x.toInt y.toInt).map fun z =>
      tagged (a.isWide || (!op.isShift && b.isWide)) (Int64.ofInt z) := by
  simp only [binary, left, right, integerBinary_eq, isWideResult_eq]
  cases op.exact x.toInt y.toInt <;> rfl

/-! ### Native operands -/

/-- No step of the arithmetic operators has to be reduced. -/
structure Unwrapped (x y : Int64) : Prop where
  add : (x + y).toInt = x.toInt + y.toInt
  sub : (x - y).toInt = x.toInt - y.toInt
  mult : (x * y).toInt = x.toInt * y.toInt
  quotient : (x / y).toInt = x.toInt.tdiv y.toInt
  quotientBelow : (x / y - 1).toInt = x.toInt.tdiv y.toInt - 1
  remainder : (x % y).toInt = x.toInt.tmod y.toInt
  remainderAbove : (x % y + y).toInt = x.toInt.tmod y.toInt + y.toInt

theorem natAbs_mul_le {x y : Int} (left : x.natAbs ≤ 2 ^ 31) (right : y.natAbs ≤ 2 ^ 31) :
    (x * y).natAbs ≤ 2 ^ 62 := by
  rw [Int.natAbs_mul]
  exact Nat.le_trans (Nat.mul_le_mul left right) (by decide)

theorem natAbs_tmod_le (x y : Int) : (x.tmod y).natAbs ≤ x.natAbs := by
  rw [Int.natAbs_tmod]
  exact Nat.mod_le _ _

theorem natAbs_le_of_fitsInt {z : Int} (fits : Number.fitsInt z = true) : z.natAbs ≤ 2 ^ 31 := by
  rw [Number.fitsInt_iff] at fits
  omega

theorem bmod_of_natAbs_le {z : Int} (small : z.natAbs ≤ 2 ^ 62) : z.bmod (2 ^ 64) = z :=
  Int.bmod_eq_of_le (by omega) (by omega)

theorem unwrapped_of_fitsInt (left : Number.fitsInt x.toInt = true)
    (right : Number.fitsInt y.toInt = true) : Unwrapped x y := by
  have left := natAbs_le_of_fitsInt left
  have right := natAbs_le_of_fitsInt right
  have product := natAbs_mul_le left right
  have quotient := Int.natAbs_tdiv_le_natAbs x.toInt y.toInt
  have remainder := natAbs_tmod_le x.toInt y.toInt
  have divided : (x / y).toInt = x.toInt.tdiv y.toInt := by
    rw [Int64.toInt_div, bmod_of_natAbs_le (by omega)]
  refine ⟨?_, ?_, ?_, divided, ?_, Int64.toInt_mod x y, ?_⟩
  · rw [Int64.toInt_add, bmod_of_natAbs_le (by omega)]
  · rw [Int64.toInt_sub, bmod_of_natAbs_le (by omega)]
  · rw [Int64.toInt_mul, bmod_of_natAbs_le product]
  · rw [Int64.toInt_sub, divided, Int64.toInt_one, bmod_of_natAbs_le (by omega)]
  · rw [Int64.toInt_add, Int64.toInt_mod, bmod_of_natAbs_le (by omega)]

theorem natAbs_bitwise_le {f : Bool → Bool → Bool} {x y : Int} (left : Number.fitsInt x = true)
    (right : Number.fitsInt y = true) : (x.bitwise f y).natAbs ≤ 2 ^ 31 := by
  have bits {f : Bool → Bool → Bool} {m n : Nat} (left : m < 2 ^ 31) (right : n < 2 ^ 31) :
      (Int.natBitwise f m n).natAbs ≤ 2 ^ 31 := by
    have straight : Nat.bitwise f m n < 2 ^ 31 := Nat.bitwise_lt_two_pow left right
    have flipped : Nat.bitwise (fun x y => !f x y) m n < 2 ^ 31 :=
      Nat.bitwise_lt_two_pow left right
    unfold Int.natBitwise
    cases f false false
    · exact Nat.le_of_lt straight
    · exact flipped
  rw [Number.fitsInt_iff] at left right
  cases x <;> cases y <;> simp only [Int.ofNat_eq_natCast, Int.bitwise] at left right ⊢ <;>
    exact bits (by omega) (by omega)

theorem exact_native {op : BinaryOp} {x y z : Int} (left : Number.fitsInt x = true)
    (right : Number.fitsInt y = true) (other : op ≠ .lshift) (given : op.exact x y = .ok z) :
    z.natAbs ≤ 2 ^ 62 := by
  have small := natAbs_le_of_fitsInt left
  have small' := natAbs_le_of_fitsInt right
  cases op with
  | add | sub =>
    cases given
    omega
  | mult =>
    cases given
    exact natAbs_mul_le small small'
  | div =>
    simp only [BinaryOp.exact] at given
    split at given <;> cases given
    have quotient := Int.natAbs_fdiv_le_natAbs x y
    omega
  | mod =>
    simp only [BinaryOp.exact] at given
    split at given
    · cases given
    · rename_i nonzero
      have remainder := natAbs_tmod_le x y
      rw [sub_mul_fdiv nonzero] at given
      split at given <;> cases given <;> omega
  | bitor =>
    cases given
    rw [← Int.bitwise_or]
    exact Nat.le_trans (natAbs_bitwise_le left right) (by decide)
  | bitxor =>
    cases given
    rw [← Int.bitwise_xor]
    exact Nat.le_trans (natAbs_bitwise_le left right) (by decide)
  | bitand =>
    cases given
    rw [← Int.bitwise_and]
    exact Nat.le_trans (natAbs_bitwise_le left right) (by decide)
  | lshift => exact absurd rfl other
  | rshift =>
    simp only [BinaryOp.exact] at given
    split at given <;> cases given
    have quotient := Int.natAbs_fdiv_le_natAbs x (2 ^ y.toNat)
    omega

/-! ### Unary operators -/

theorem unary_minus {a : Number} (symbol : String) (value : a.toInt64? = some x) :
    unary .minus symbol a = .ok (tagged a.isWide (Int64.ofInt (-x.toInt))) := by
  cases a with
  | int v =>
    cases value
    simp [unary, tagged, Number.isWide]
  | wide v =>
    cases value
    simp [unary, tagged, Number.isWide]
  | double v => cases value

theorem not_eq_ofInt : ~~~x = Int64.ofInt (-x.toInt - 1) := by
  rw [Int64.not_eq_neg_add, Int64.ofInt_sub, Int64.ofInt_neg, Int64.ofInt_toInt]
  rfl

theorem toInt64_not (v : Int32) : (~~~v).toInt64 = ~~~v.toInt64 := by
  have fits := Number.fitsInt_iff.mp (Number.fitsInt_toInt v)
  rw [← Int64.toInt_inj, Int32.toInt_toInt64, Int32.toInt_not, Int64.toInt_not,
    Int32.toInt_toInt64, Int.bmod_eq_of_le (by omega) (by omega),
    Int.bmod_eq_of_le (by omega) (by omega)]

theorem unary_bitnot {a : Number} (symbol : String) (value : a.toInt64? = some x) :
    unary .bitnot symbol a = .ok (tagged a.isWide (Int64.ofInt (-x.toInt - 1))) := by
  rw [← not_eq_ofInt]
  cases a with
  | int v =>
    cases value
    have fits := Number.fitsInt_toInt (~~~v)
    rw [← Int32.toInt_toInt64, toInt64_not] at fits
    have narrow : (~~~v.toInt64).toInt32 = ~~~v := by
      rw [← toInt64_not, Int32.toInt32_toInt64]
    show Except.ok (Number.int (~~~v)) = .ok (Number.ofInt64 (~~~v.toInt64))
    rw [Number.ofInt64, if_pos fits, narrow]
  | wide v =>
    cases value
    rfl
  | double v => cases value

/-- On integers an operator gives its exact result, reduced to 64 bits, or its fault. Of what is
computed from two native operands only a left shift has to be reduced. -/
theorem integer_operators_exact {a b : Number} {x y : Int} (left : a.value? = some x)
    (right : b.value? = some y) :
    (∀ op fault, binary op a b = .error fault ↔ op.exact x y = .error fault) ∧
    (∀ op z, op.exact x y = .ok z → ∃ n, binary op a b = .ok n ∧
      n.Reduces (a.isWide || (!op.isShift && b.isWide)) z) ∧
    (∀ p q, a = .int p → b = .int q → Unwrapped p.toInt64 q.toInt64 ∧
      ∀ (op : BinaryOp) z, op ≠ .lshift → op.exact x y = .ok z → z.bmod (2 ^ 64) = z) ∧
    (∀ symbol, ∃ n, unary .minus symbol a = .ok n ∧ n.Reduces a.isWide (-x)) ∧
    ∀ symbol, ∃ n, unary .bitnot symbol a = .ok n ∧ n.Reduces a.isWide (-x - 1) := by
  obtain ⟨v, leftValue, rfl⟩ := Option.map_eq_some_iff.mp left
  obtain ⟨w, rightValue, rfl⟩ := Option.map_eq_some_iff.mp right
  refine ⟨?_, ?_, ?_, ?_, ?_⟩
  · intro op fault
    rw [binary_eq leftValue rightValue]
    cases op.exact v.toInt w.toInt <;> simp [Except.map]
  · intro op z given
    refine ⟨_, ?_, Number.reduces_tagged _ z⟩
    rw [binary_eq leftValue rightValue, given]
    rfl
  · rintro p q rfl rfl
    cases leftValue
    cases rightValue
    have left := Number.fitsInt_toInt p
    have right := Number.fitsInt_toInt q
    rw [← Int32.toInt_toInt64] at left right
    refine ⟨unwrapped_of_fitsInt left right, ?_⟩
    intro op z other given
    exact bmod_of_natAbs_le (exact_native left right other given)
  · intro symbol
    exact ⟨_, unary_minus symbol leftValue, Number.reduces_tagged _ _⟩
  · intro symbol
    exact ⟨_, unary_bitnot symbol leftValue, Number.reduces_tagged _ _⟩

theorem integer_operators_exact_at_limits :
    (∃ n, binary .div (.wide Int64.minValue) (.int (-1)) = .ok n ∧ n.Reduces true (2 ^ 63)) ∧
      binary .rshift (.int 1) (.int (-1)) = .error .negativeShift ∧
      ∃ n, binary .mult (.int Int32.minValue) (.int Int32.minValue) = .ok n ∧
        n.Reduces false (2 ^ 62) ∧ (2 ^ 62 : Int).bmod (2 ^ 64) = 2 ^ 62 := by
  have quotient := (integer_operators_exact (a := .wide Int64.minValue) (b := .int (-1))
    (x := -2 ^ 63) (y := -1) rfl rfl).2.1 .div (2 ^ 63) rfl
  have refused := (integer_operators_exact (a := .int 1) (b := .int (-1)) (x := 1) (y := -1)
    rfl rfl).1 .rshift .negativeShift
  have native := integer_operators_exact (a := .int Int32.minValue) (b := .int Int32.minValue)
    (x := -2 ^ 31) (y := -2 ^ 31) rfl rfl
  obtain ⟨n, product, reduces⟩ := native.2.1 .mult (2 ^ 62) rfl
  have whole := (native.2.2.1 _ _ rfl rfl).2 .mult (2 ^ 62) nofun rfl
  exact ⟨quotient, refused.mpr rfl, n, product, reduces, whole⟩

end Operator

end CommandVM
