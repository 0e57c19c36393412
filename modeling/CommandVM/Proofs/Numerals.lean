import CommandVM.Proofs.Listing.Tokens
import Mathlib.Data.List.Induction
import Mathlib.Tactic.IntervalCases

/-!
# Numerals

The digits of a radix and the number that one or more of them spell, said without the reader.
`natural?_eq_some_iff` shows that the reader of digits finds exactly these numbers.
-/

namespace CommandVM.Text

/-- The character stands for `d` in `radix`; letters count in either case. -/
def Digit (radix : Nat) (c : Char) (d : Nat) : Prop :=
  d < radix ∧ (c = d.digitChar ∨ c = d.digitChar.toUpper)

/-- One or more digits, and the number that they spell. -/
inductive Numeral (radix : Nat) : List Char → Nat → Prop
  | digit {c : Char} {d : Nat} : Digit radix c d → Numeral radix [c] d
  | more {cs : List Char} {n : Nat} {c : Char} {d : Nat} :
    Numeral radix cs n → Digit radix c d → Numeral radix (cs ++ [c]) (n * radix + d)

variable {radix d n : Nat} {c : Char} {cs : List Char}

/-! ### Digits -/

theorem digitValue?_digitChar (small : radix ≤ 16) (less : d < radix) :
    digitValue? radix d.digitChar = some d ∧ digitValue? radix d.digitChar.toUpper = some d := by
  have bound : d < 16 := by omega
  interval_cases d <;> exact ⟨if_pos less, if_pos less⟩

theorem digit_of_digitValue? (small : radix ≤ 16) (read : digitValue? radix c = some d) :
    Digit radix c d := by
  have letter (code : Nat) (same : c.toNat = code) : c = Char.ofNat code := by
    rw [← same, Char.ofNat_toNat]
  simp only [digitValue?, Option.ite_none_right_eq_some, Option.some.injEq] at read
  obtain ⟨less, value⟩ := read
  rw [value] at less
  refine ⟨less, ?_⟩
  have bound : d < 16 := by omega
  -- The value tells the character in each of the three intervals.
  split at value
  · next decimal =>
    simp only [Bool.and_eq_true, decide_eq_true_eq] at decimal
    have low : 48 ≤ c.toNat := decimal.1
    have high : c.toNat ≤ 57 := decimal.2
    have code : c.toNat = 48 + d := by
      change c.toNat - 48 = d at value
      omega
    left
    rw [letter _ code]
    have ten : d < 10 := by omega
    interval_cases d <;> rfl
  · split at value
    · next lower =>
      simp only [Bool.and_eq_true, decide_eq_true_eq] at lower
      have low : 97 ≤ c.toNat := lower.1
      change c.toNat - 97 + 10 = d at value
      left
      rw [letter (97 + (d - 10)) (by omega)]
      have ten : 10 ≤ d := by omega
      interval_cases d <;> rfl
    · split at value
      · next upper =>
        simp only [Bool.and_eq_true, decide_eq_true_eq] at upper
        have low : 65 ≤ c.toNat := upper.1
        change c.toNat - 65 + 10 = d at value
        right
        rw [letter (65 + (d - 10)) (by omega)]
        have ten : 10 ≤ d := by omega
        interval_cases d <;> rfl
      · omega

theorem digitValue?_eq_some_iff (small : radix ≤ 16) :
    digitValue? radix c = some d ↔ Digit radix c d := by
  constructor
  · exact digit_of_digitValue? small
  · rintro ⟨less, rfl | rfl⟩
    · exact (digitValue?_digitChar small less).1
    · exact (digitValue?_digitChar small less).2

theorem isDigit_iff (small : radix ≤ 16) : isDigit radix c = true ↔ ∃ d, Digit radix c d := by
  rw [isDigit, Option.isSome_iff_exists]
  exact exists_congr fun d => digitValue?_eq_some_iff small

theorem isDigit_ten (c : Char) : isDigit 10 c = c.isDigit := by
  rw [Bool.eq_iff_iff, isDigit_iff (by decide)]
  constructor
  · rintro ⟨d, less, rfl | rfl⟩ <;> interval_cases d <;> rfl
  · intro decimal
    simp only [Char.isDigit, Bool.and_eq_true, decide_eq_true_eq] at decimal
    have low : 48 ≤ c.toNat := decimal.1
    have high : c.toNat ≤ 57 := decimal.2
    refine ⟨c.toNat - 48, by omega, .inl ?_⟩
    have code : Char.ofNat c.toNat = c := Char.ofNat_toNat c
    interval_cases c.toNat <;> exact code.symm

/-- The decimal digits that are not octal are the last two. -/
theorem isDigit_eight_eq_false_iff (decimal : isDigit 10 c = true) :
    isDigit 8 c = false ↔ c = '8' ∨ c = '9' := by
  obtain ⟨d, less, rfl | rfl⟩ := (isDigit_iff (by decide)).mp decimal <;>
    interval_cases d <;> decide

/-! ### Numerals -/

theorem Numeral.ne_nil (spelled : Numeral radix cs n) : cs ≠ [] := by
  cases spelled <;> simp

theorem natural?_append_singleton (some_digit : cs ≠ []) :
    natural? radix (cs ++ [c]) =
      (natural? radix cs).bind fun n => (digitValue? radix c).map fun d => n * radix + d := by
  cases cs with
  | nil => exact absurd rfl some_digit
  | cons b cs =>
    show digitsFrom? radix 0 (b :: cs ++ [c]) = (digitsFrom? radix 0 (b :: cs)).bind _
    rw [digitsFrom?_append]
    refine congrArg _ (funext fun n => ?_)
    rw [digitsFrom?]
    cases digitValue? radix c <;> rfl

theorem natural?_singleton : natural? radix [c] = digitValue? radix c := by
  show digitsFrom? radix 0 [c] = _
  rw [digitsFrom?]
  cases digitValue? radix c with
  | none => rfl
  | some d => simp [digitsFrom?]

/-- The reader of digits finds the number that a numeral spells, and no other texts are read. -/
theorem natural?_eq_some_iff (small : radix ≤ 16) :
    natural? radix cs = some n ↔ Numeral radix cs n := by
  constructor
  · intro read
    induction cs using List.reverseRecOn generalizing n with
    | nil => cases read
    | append_singleton cs c ih =>
      by_cases empty : cs = []
      · subst empty
        rw [List.nil_append, natural?_singleton] at read
        exact .digit (digit_of_digitValue? small read)
      · rw [natural?_append_singleton empty, Option.bind_eq_some_iff] at read
        obtain ⟨k, first, last⟩ := read
        obtain ⟨d, value, rfl⟩ := Option.map_eq_some_iff.mp last
        exact .more (ih first) (digit_of_digitValue? small value)
  · intro spelled
    induction spelled with
    | digit stands =>
      rw [natural?_singleton]
      exact (digitValue?_eq_some_iff small).mpr stands
    | more spelled stands ih =>
      rw [natural?_append_singleton spelled.ne_nil, ih, Option.bind_some,
        (digitValue?_eq_some_iff small).mpr stands, Option.map_some]

theorem natural?_isSome_iff : (natural? radix cs).isSome ↔ cs ≠ [] ∧ ∀ c ∈ cs, isDigit radix c := by
  induction cs using List.reverseRecOn with
  | nil => simp [natural?]
  | append_singleton cs c ih =>
    by_cases empty : cs = []
    · subst empty
      simp [natural?_singleton, isDigit]
    · have both : (natural? radix (cs ++ [c])).isSome =
          ((natural? radix cs).isSome && isDigit radix c) := by
        rw [natural?_append_singleton empty]
        cases natural? radix cs <;> simp [isDigit]
      rw [both, Bool.and_eq_true, ih]
      simp [empty, or_imp, forall_and]

theorem Numeral.isDigit (spelled : Numeral radix cs n) (small : radix ≤ 16) :
    ∀ c ∈ cs, isDigit radix c = true := by
  have read := (natural?_eq_some_iff small).mpr spelled
  exact (natural?_isSome_iff.mp (by rw [read]; rfl)).2

end CommandVM.Text
