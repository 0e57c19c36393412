import CommandVM.Proofs.Numerals
import CommandVM.Proofs.ValueViews
import Mathlib.Tactic.Tauto

/-!
# Which texts are numbers

The texts of integers and of decimals, said without the reader. What an unsigned text reads as
depends only on which of them it is: `read_classified` gives the result for every text.
-/

namespace CommandVM.Number

open CommandVM.Text

/-! ### The texts of numbers -/

/-- The text without the blanks around it. -/
def trimmed (text : String) : List Char := trim text.toList

/-- The text has a minus in front. -/
def negated (text : String) : Bool := (trimmed text).head? == some '-'

/-- The text without the blanks around it and without its sign. -/
def unsigned (text : String) : List Char :=
  match trimmed text with
  | '-' :: body => body
  | '+' :: body => body
  | body => body

/-- An unsigned integer and its magnitude: hexadecimal after its mark, zero, decimal, or octal after
a zero. -/
inductive IntegerText : List Char → Nat → Prop
  | hexadecimal {mark : Char} {ds : List Char} {n : Nat} :
    mark = 'x' ∨ mark = 'X' → Numeral 16 ds n → IntegerText ('0' :: mark :: ds) n
  | zero : IntegerText ['0'] 0
  | decimal {c : Char} {ds : List Char} {n : Nat} :
    c ≠ '0' → Numeral 10 (c :: ds) n → IntegerText (c :: ds) n
  | octal {ds : List Char} {n : Nat} : Numeral 8 ds n → IntegerText ('0' :: ds) n

/-- Decimal digits after a zero that are not all octal. -/
structure MisspelledOctal (body : List Char) : Prop where
  digits : ∀ c ∈ body, c.isDigit
  leading : body.head? = some '0'
  longer : 1 < body.length
  beyond : '8' ∈ body ∨ '9' ∈ body

/-- Digits with at most one point among them: the number that the digits spell, and how many of them
follow the point. -/
inductive Mantissa : List Char → Nat → Nat → Prop
  | whole {ds : List Char} {n : Nat} : Numeral 10 ds n → Mantissa ds n 0
  | pointed {ds fraction : List Char} {n : Nat} :
    Numeral 10 (ds ++ fraction) n → Mantissa (ds ++ '.' :: fraction) n fraction.length

/-- An exponent after its mark, with an optional sign; nothing stands for zero. -/
inductive Exponent : List Char → Int → Prop
  | absent : Exponent [] 0
  | plain {mark : Char} {ds : List Char} {n : Nat} :
    mark = 'e' ∨ mark = 'E' → Numeral 10 ds n → Exponent (mark :: ds) n
  | plus {mark : Char} {ds : List Char} {n : Nat} :
    mark = 'e' ∨ mark = 'E' → Numeral 10 ds n → Exponent (mark :: '+' :: ds) n
  | minus {mark : Char} {ds : List Char} {n : Nat} :
    mark = 'e' ∨ mark = 'E' → Numeral 10 ds n → Exponent (mark :: '-' :: ds) (-n)

/-- A mantissa and an exponent that spell `n * 10 ^ e`. -/
def Scientific (body : List Char) (n : Nat) (e : Int) : Prop :=
  ∃ digits mark places power, body = digits ++ mark ∧ Mantissa digits n places ∧
    Exponent mark power ∧ e = power - places

/-- An unsigned decimal that is no integer: a mantissa and an exponent, not all of them digits. -/
def DecimalText (body : List Char) (n : Nat) (e : Int) : Prop :=
  (¬ ∀ c ∈ body, c.isDigit) ∧ Scientific body n e

/-- An integer reduced to 64 bits, native when 32 bits can hold it. -/
def reduced (v : Int) : Number :=
  if -2 ^ 31 ≤ v.bmod (2 ^ 64) ∧ v.bmod (2 ^ 64) < 2 ^ 31 then .int (Int32.ofInt (v.bmod (2 ^ 64)))
  else .wide (Int64.ofInt (v.bmod (2 ^ 64)))

/-! ### Integers -/

theorem ofInt64_ofInt (v : Int) : ofInt64 (Int64.ofInt v) = reduced v := by
  have value : (Int64.ofInt v).toInt = v.bmod (2 ^ 64) := Int64.toInt_ofInt
  have native : (Int64.ofInt v).toInt32 = Int32.ofInt (v.bmod (2 ^ 64)) := by
    apply Int32.toInt_inj.mp
    rw [Int64.toInt_toInt32, value, Int32.toInt_ofInt]
  have wide : Int64.ofInt v = Int64.ofInt (v.bmod (2 ^ 64)) := by rw [← value, Int64.ofInt_toInt]
  rw [ofInt64, reduced, fitsInt, value, native, ← wide]
  simp only [Bool.and_eq_true, decide_eq_true_eq]
  rfl

theorem ofMagnitude_eq_reduced (negative : Bool) (n : Nat) :
    ofMagnitude negative n =
      if n < 2 ^ 64 then .ok (reduced (if negative then -n else n)) else .error .tooLarge := by
  have value : (if negative then -Int64.ofNat n else Int64.ofNat n) =
      Int64.ofInt (if negative then -n else n) := by
    cases negative with
    | false => exact Int64.ofInt_eq_ofNat.symm
    | true => exact ((Int64.ofInt_neg _).trans (congrArg _ Int64.ofInt_eq_ofNat)).symm
  rw [← ofInt64_ofInt, ← value]
  rfl

/-! ### The reader of unsigned texts -/

variable {negative : Bool} {body : List Char} {n : Nat} {e : Int}

theorem readBody_hexadecimal {mark : Char} (marked : mark = 'x' ∨ mark = 'X') (ds : List Char) :
    readBody negative ('0' :: mark :: ds) = match natural? 16 ds with
      | some n => ofMagnitude negative n
      | none => .error .notNumeric := by
  rcases marked with rfl | rfl <;> rfl

/-- A text that does not begin with the mark of hexadecimal digits. -/
def Unmarked (body : List Char) : Prop :=
  ∀ mark ds, mark = 'x' ∨ mark = 'X' → body ≠ '0' :: mark :: ds

theorem readBody_unmarked {c : Char} {cs : List Char} (unmarked : Unmarked (c :: cs)) :
    readBody negative (c :: cs) =
      if !(c :: cs).all (isDigit 10) then readDouble negative (c :: cs)
      else if c == '0' && !cs.isEmpty then
        match natural? 8 cs with
        | some n => ofMagnitude negative n
        | none => .error .invalidOctal
      else match natural? 10 (c :: cs) with
        | some n => ofMagnitude negative n
        | none => .error .notNumeric := by
  rw [readBody.eq_def]
  split
  · next none => cases none
  · next ds same => exact absurd same (unmarked 'x' ds (.inl rfl))
  · next ds same => exact absurd same (unmarked 'X' ds (.inr rfl))
  · next same => cases same; rfl

theorem unmarked_of_digits (digits : ∀ c ∈ body, isDigit 10 c = true) : Unmarked body := by
  rintro mark ds marked rfl
  have digit := digits mark (by simp)
  rcases marked with rfl | rfl <;> exact absurd digit (by decide)

theorem readBody_of_digits {c : Char} {cs : List Char}
    (digits : ∀ d ∈ c :: cs, isDigit 10 d = true) :
    readBody negative (c :: cs) =
      if c == '0' && !cs.isEmpty then
        match natural? 8 cs with
        | some n => ofMagnitude negative n
        | none => .error .invalidOctal
      else match natural? 10 (c :: cs) with
        | some n => ofMagnitude negative n
        | none => .error .notNumeric := by
  rw [readBody_unmarked (unmarked_of_digits digits), List.all_eq_true.mpr digits]
  rfl

theorem readBody_integer (spelled : IntegerText body n) :
    readBody negative body = ofMagnitude negative n := by
  cases spelled with
  | hexadecimal marked digits =>
    rw [readBody_hexadecimal marked, (natural?_eq_some_iff (by decide)).mpr digits]
  | zero => rfl
  | decimal nonzero digits =>
    rw [readBody_of_digits (digits.isDigit (by decide)),
      (natural?_eq_some_iff (by decide)).mpr digits]
    simp [nonzero]
  | @octal ds _ digits =>
    have decimal : ∀ d ∈ '0' :: ds, isDigit 10 d = true := by
      intro d member
      rcases List.mem_cons.mp member with rfl | later
      · decide
      · obtain ⟨k, less, same⟩ := (isDigit_iff (by decide)).mp (digits.isDigit (by decide) d later)
        exact (isDigit_iff (by decide)).mpr ⟨k, by omega, same⟩
    rw [readBody_of_digits decimal, (natural?_eq_some_iff (by decide)).mpr digits]
    simp [digits.ne_nil]

theorem readBody_misspelledOctal (misspelled : MisspelledOctal body) :
    readBody negative body = .error .invalidOctal := by
  obtain ⟨digits, leading, longer, beyond⟩ := misspelled
  obtain ⟨cs, rfl⟩ := List.head?_eq_some_iff.mp leading
  have decimal : ∀ d ∈ '0' :: cs, isDigit 10 d = true := by
    intro d member
    rw [isDigit_ten]
    exact digits d member
  have some_digit : cs ≠ [] := by
    rintro rfl
    exact absurd longer (by decide)
  have unread : natural? 8 cs = none := by
    rw [← Option.not_isSome_iff_eq_none, natural?_isSome_iff]
    rintro ⟨-, octal⟩
    have inside (c : Char) (member : c ∈ '0' :: cs) (late : c = '8' ∨ c = '9') : False := by
      rcases List.mem_cons.mp member with rfl | later
      · exact absurd late (by decide)
      · have not_octal := (isDigit_eight_eq_false_iff (decimal c member)).mpr late
        rw [octal c later] at not_octal
        cases not_octal
    rcases beyond with eight | nine
    · exact inside _ eight (.inl rfl)
    · exact inside _ nine (.inr rfl)
  rw [readBody_of_digits decimal, unread]
  simp [some_digit]

/-! ### Decimals -/

theorem span_append {α : Type} {p : α → Bool} {xs : List α} (pass : ∀ x ∈ xs, p x = true)
    (ys : List α) (stop : ∀ y ∈ ys.head?, p y = false) :
    (xs ++ ys).takeWhile p = xs ∧ (xs ++ ys).dropWhile p = ys := by
  rw [List.takeWhile_append_of_pos pass, List.dropWhile_append_of_pos pass]
  cases ys with
  | nil => simp
  | cons y ys => simp [stop y rfl]

theorem head_dropWhile {α : Type} {p : α → Bool} {xs ys : List α} {y : α}
    (rest : xs.dropWhile p = y :: ys) : p y = false := by
  have stop := List.head?_dropWhile_not p xs
  rw [rest] at stop
  exact stop

theorem ne_point_of_numeral {cs : List Char} (spelled : Numeral 10 cs n) :
    ∀ c ∈ cs, (c != '.') = true := by
  intro c member
  rw [bne_iff_ne]
  rintro rfl
  exact absurd (spelled.isDigit (by decide) _ member) (by decide)

theorem mantissa?_eq_some_iff {cs : List Char} {places : Nat} :
    mantissa? cs = some (n, places) ↔ Mantissa cs n places := by
  rw [mantissa?]
  constructor
  · intro read
    obtain ⟨k, digits, same⟩ := Option.map_eq_some_iff.mp read
    cases same
    have spelled := (natural?_eq_some_iff (by decide)).mp digits
    have whole := List.takeWhile_append_dropWhile (p := (· != '.')) (l := cs)
    cases rest : cs.dropWhile (· != '.') with
    | nil =>
      rw [rest, List.append_nil] at whole
      rw [rest, whole] at spelled
      simpa using Mantissa.whole spelled
    | cons point fraction =>
      have point_eq : point = '.' := by simpa using head_dropWhile rest
      rw [rest, point_eq] at whole
      rw [rest] at spelled
      have split := Mantissa.pointed spelled
      rwa [List.drop_succ_cons, List.drop_zero, whole] at split
  · intro spelled
    cases spelled with
    | whole digits =>
      obtain ⟨taken, rest⟩ := span_append (ne_point_of_numeral digits) [] nofun
      rw [List.append_nil] at taken rest
      simp [taken, rest, (natural?_eq_some_iff (by decide)).mpr digits]
    | @pointed ds fraction _ digits =>
      have dense : ∀ c ∈ ds, (c != '.') = true := fun c member =>
        ne_point_of_numeral digits c (List.mem_append_left _ member)
      obtain ⟨taken, rest⟩ := span_append dense ('.' :: fraction) (by simp)
      simp [taken, rest, (natural?_eq_some_iff (by decide)).mpr digits]

theorem Mantissa.digit_or_point {cs : List Char} {places : Nat} (spelled : Mantissa cs n places) :
    ∀ c ∈ cs, isDigit 10 c = true ∨ c = '.' := by
  cases spelled with
  | whole digits => exact fun c member => .inl (digits.isDigit (by decide) c member)
  | pointed digits =>
    intro c member
    simp only [List.mem_append, List.mem_cons] at member
    have digit := digits.isDigit (by decide) c
    rw [List.mem_append] at digit
    tauto

theorem exponent?_minus (ds : List Char) :
    exponent? ('-' :: ds) = (natural? 10 ds).map fun n : Nat => -(n : Int) := by
  rw [exponent?]
  cases natural? 10 ds <;> rfl

theorem exponent?_plus (ds : List Char) :
    exponent? ('+' :: ds) = (natural? 10 ds).map Int.ofNat := rfl

theorem exponent?_plain {ds : List Char} (minus : ds.head? ≠ some '-')
    (plus : ds.head? ≠ some '+') : exponent? ds = (natural? 10 ds).map Int.ofNat := by
  unfold exponent?
  split
  · exact absurd rfl minus
  · exact absurd rfl plus
  · rfl

theorem exponent?_eq_some_iff {mark : Char} {ds : List Char} (marked : mark = 'e' ∨ mark = 'E') :
    exponent? ds = some e ↔ Exponent (mark :: ds) e := by
  have numeral {cs : List Char} {n : Nat} : natural? 10 cs = some n ↔ Numeral 10 cs n :=
    natural?_eq_some_iff (by decide)
  constructor
  · intro read
    by_cases minus : ds.head? = some '-'
    · obtain ⟨cs, rfl⟩ := List.head?_eq_some_iff.mp minus
      rw [exponent?_minus] at read
      obtain ⟨k, digits, rfl⟩ := Option.map_eq_some_iff.mp read
      exact .minus marked (numeral.mp digits)
    · by_cases plus : ds.head? = some '+'
      · obtain ⟨cs, rfl⟩ := List.head?_eq_some_iff.mp plus
        rw [exponent?_plus] at read
        obtain ⟨k, digits, rfl⟩ := Option.map_eq_some_iff.mp read
        exact .plus marked (numeral.mp digits)
      · rw [exponent?_plain minus plus] at read
        obtain ⟨k, digits, rfl⟩ := Option.map_eq_some_iff.mp read
        exact .plain marked (numeral.mp digits)
  · intro spelled
    cases spelled with
    | plain _ digits =>
      have unsigned {c : Char} (sign : isDigit 10 c = false) : ds.head? ≠ some c := by
        intro first
        rw [digits.isDigit (by decide) c (List.mem_of_mem_head? first)] at sign
        cases sign
      rw [exponent?_plain (unsigned (by decide)) (unsigned (by decide)), numeral.mpr digits]
      rfl
    | plus _ digits => rw [exponent?_plus, numeral.mpr digits]; rfl
    | minus _ digits => rw [exponent?_minus, numeral.mpr digits]; rfl

theorem isExponentMark_iff {c : Char} : isExponentMark c = true ↔ c = 'e' ∨ c = 'E' := by
  simp [isExponentMark]

theorem decimal?_eq_some_iff : decimal? body = some (n, e) ↔ Scientific body n e := by
  constructor
  · intro read
    have whole := List.takeWhile_append_dropWhile (p := (!isExponentMark ·)) (l := body)
    unfold decimal? at read
    split at read
    · next places mantissa rest =>
      cases read
      exact ⟨_, [], places, 0, by rw [← rest, whole], mantissa?_eq_some_iff.mp mantissa, .absent,
        by omega⟩
    · next places mark ds mantissa rest =>
      obtain ⟨power, exponent, same⟩ := Option.map_eq_some_iff.mp read
      cases same
      have marked := isExponentMark_iff.mp (by simpa using head_dropWhile rest)
      exact ⟨_, mark :: ds, places, power, by rw [← rest, whole], mantissa?_eq_some_iff.mp mantissa,
        (exponent?_eq_some_iff marked).mp exponent, rfl⟩
    · cases read
  · rintro ⟨digits, mark, places, power, rfl, mantissa, exponent, rfl⟩
    have dense : ∀ c ∈ digits, (!isExponentMark c) = true := by
      intro c member
      rcases mantissa.digit_or_point c member with digit | rfl
      · rw [Bool.not_eq_true', ← Bool.not_eq_true, isExponentMark_iff]
        rintro (rfl | rfl) <;> exact absurd digit (by decide)
      · decide
    have read := mantissa?_eq_some_iff.mpr mantissa
    cases mark with
    | nil =>
      cases exponent
      obtain ⟨taken, rest⟩ := span_append dense [] nofun
      rw [decimal?, taken, rest, read]
      simp
    | cons mark ds =>
      have marked : mark = 'e' ∨ mark = 'E' := by cases exponent <;> assumption
      obtain ⟨taken, rest⟩ := span_append dense (mark :: ds)
        (by simp [isExponentMark_iff.mpr marked])
      rw [decimal?, taken, rest, read]
      simp [(exponent?_eq_some_iff marked).mpr exponent]

theorem Scientific.unmarked (spelled : Scientific body n e) : Unmarked body := by
  rintro mark ds marked rfl
  have read := decimal?_eq_some_iff.mpr spelled
  -- The digits end at the mark, which is no digit.
  have unread : decimal? ('0' :: mark :: ds) = none := by rcases marked with rfl | rfl <;> rfl
  rw [unread] at read
  cases read

/-- The double nearest to a decimal, unless that is infinite. -/
def nearestDouble (negative : Bool) (n : Nat) (e : Int) : Except ReadError Number :=
  if (Double.ofDecimal negative n e).isInf then .error .doubleTooLarge
  else .ok (.double (Double.ofDecimal negative n e))

theorem readBody_decimal (spelled : DecimalText body n e) :
    readBody negative body = nearestDouble negative n e := by
  obtain ⟨mixed, scientific⟩ := spelled
  cases body with
  | nil => exact absurd (by simp) mixed
  | cons c cs =>
    have not_all : (c :: cs).all (isDigit 10) = false := by
      rw [← Bool.not_eq_true, List.all_eq_true]
      simpa only [isDigit_ten] using mixed
    rw [readBody_unmarked scientific.unmarked, not_all, readDouble,
      decimal?_eq_some_iff.mpr scientific]
    rfl

/-! ### Texts of no number -/

/-- Digits are octal, or one of them is too large for that. -/
theorem octal_or_beyond {cs : List Char} (some_digit : cs ≠ [])
    (digits : ∀ d ∈ cs, isDigit 10 d = true) : (∃ n, Numeral 8 cs n) ∨ '8' ∈ cs ∨ '9' ∈ cs := by
  by_cases octal : ∀ d ∈ cs, isDigit 8 d = true
  · obtain ⟨n, read⟩ := Option.isSome_iff_exists.mp (natural?_isSome_iff.mpr ⟨some_digit, octal⟩)
    exact .inl ⟨n, (natural?_eq_some_iff (by decide)).mp read⟩
  · simp only [not_forall, Bool.not_eq_true] at octal
    obtain ⟨d, member, late⟩ := octal
    rcases (isDigit_eight_eq_false_iff (digits d member)).mp late with rfl | rfl
    · exact .inr (.inl member)
    · exact .inr (.inr member)

theorem digits_cases {c : Char} {cs : List Char} (digits : ∀ d ∈ c :: cs, isDigit 10 d = true) :
    (∃ n, IntegerText (c :: cs) n) ∨ MisspelledOctal (c :: cs) := by
  by_cases zero : c = '0'
  · subst zero
    by_cases alone : cs = []
    · subst alone
      exact .inl ⟨0, .zero⟩
    · have rest : ∀ d ∈ cs, isDigit 10 d = true := fun d member => digits d (.tail _ member)
      rcases octal_or_beyond alone rest with ⟨n, octal⟩ | beyond
      · exact .inl ⟨n, .octal octal⟩
      · refine .inr ⟨by simpa only [isDigit_ten] using digits, rfl, ?_, ?_⟩
        · have positive := List.length_pos_of_ne_nil alone
          rw [List.length_cons]
          omega
        · exact beyond.imp (.tail _) (.tail _)
  · obtain ⟨n, read⟩ := Option.isSome_iff_exists.mp
      (natural?_isSome_iff.mpr ⟨List.cons_ne_nil c cs, digits⟩)
    exact .inl ⟨n, .decimal zero ((natural?_eq_some_iff (by decide)).mp read)⟩

/-- A text that spells no number, and is not misspelled as one, is refused as such. -/
theorem readBody_cases (negative : Bool) (body : List Char) :
    (∃ n, IntegerText body n) ∨ MisspelledOctal body ∨ (∃ n e, DecimalText body n e) ∨
      readBody negative body = .error .notNumeric := by
  cases body with
  | nil => exact .inr (.inr (.inr rfl))
  | cons c cs =>
    by_cases unmarked : Unmarked (c :: cs)
    · by_cases digits : ∀ d ∈ c :: cs, isDigit 10 d = true
      · exact (digits_cases digits).imp_right .inl
      · have not_all : (c :: cs).all (isDigit 10) = false := by
          rwa [← Bool.not_eq_true, List.all_eq_true]
        rw [readBody_unmarked unmarked, not_all, readDouble]
        rcases read : decimal? (c :: cs) with - | ⟨n, e⟩
        · exact .inr (.inr (.inr rfl))
        · refine .inr (.inr (.inl ⟨n, e, ?_, decimal?_eq_some_iff.mp read⟩))
          simpa only [isDigit_ten] using digits
    · simp only [Unmarked, not_forall, not_not] at unmarked
      obtain ⟨mark, ds, marked, same⟩ := unmarked
      rw [same, readBody_hexadecimal marked]
      rcases read : natural? 16 ds with - | n
      · exact .inr (.inr (.inr rfl))
      · exact .inl ⟨n, .hexadecimal marked ((natural?_eq_some_iff (by decide)).mp read)⟩

/-! ### All texts -/

variable {text : String}

theorem read_of_blank (blank : trimmed text = []) : read text = .error .empty := by
  rw [trimmed] at blank
  rw [read, readChars, blank]

theorem read_eq_readBody (present : trimmed text ≠ []) :
    read text = readBody (negated text) (unsigned text) := by
  rw [read, readChars, negated, unsigned]
  unfold trimmed at present ⊢
  generalize trim text.toList = chars at present ⊢
  split
  · exact absurd rfl present
  · rfl
  · rfl
  · next minus plus =>
    have first : (chars.head? == some '-') = false := by
      rw [beq_eq_false_iff_ne]
      intro sign
      obtain ⟨rest, same⟩ := List.head?_eq_some_iff.mp sign
      exact minus rest same
    rw [first]
    split
    · exact absurd rfl (minus _)
    · exact absurd rfl (plus _)
    · rfl

theorem trimmed_ne_nil (present : unsigned text ≠ []) : trimmed text ≠ [] := by
  intro blank
  exact present (by rw [unsigned, blank])

theorem read_of_integer (spelled : IntegerText (unsigned text) n) :
    read text = ofMagnitude (negated text) n := by
  have present : unsigned text ≠ [] := by
    intro empty
    rw [empty] at spelled
    cases spelled
  rw [read_eq_readBody (trimmed_ne_nil present), readBody_integer spelled]

theorem read_of_misspelledOctal (misspelled : MisspelledOctal (unsigned text)) :
    read text = .error .invalidOctal := by
  have present : unsigned text ≠ [] :=
    List.ne_nil_of_length_pos (Nat.lt_of_succ_lt misspelled.longer)
  rw [read_eq_readBody (trimmed_ne_nil present), readBody_misspelledOctal misspelled]

theorem read_of_decimal (spelled : DecimalText (unsigned text) n e) :
    read text = nearestDouble (negated text) n e := by
  have present : unsigned text ≠ [] := by
    intro empty
    exact spelled.1 (by simp [empty])
  rw [read_eq_readBody (trimmed_ne_nil present), readBody_decimal spelled]

/-- The forms of texts that are read in different ways. -/
inductive Form where
  | blank
  | integer
  | misspelledOctal
  | decimal
  | other

/-- The text has a form. -/
def HasForm (text : String) : Form → Prop
  | .blank => trimmed text = []
  | .integer => ∃ n, IntegerText (unsigned text) n
  | .misspelledOctal => MisspelledOctal (unsigned text)
  | .decimal => ∃ n e, DecimalText (unsigned text) n e
  | .other => trimmed text ≠ [] ∧ (¬ ∃ n, IntegerText (unsigned text) n) ∧
      ¬ MisspelledOctal (unsigned text) ∧ ¬ ∃ n e, DecimalText (unsigned text) n e

/-- The form of the texts with an outcome. -/
def formOf : Except ReadError Number → Form
  | .error .empty => .blank
  | .error .notNumeric => .other
  | .error .invalidOctal => .misspelledOctal
  | .error .tooLarge => .integer
  | .error .doubleTooLarge => .decimal
  | .ok n => if n.isDouble then .decimal else .integer

theorem isDouble_reduced (v : Int) : (reduced v).isDouble = false := by
  rw [reduced]
  split <;> rfl

theorem formOf_ofMagnitude (negative : Bool) (n : Nat) :
    formOf (ofMagnitude negative n) = .integer := by
  rw [ofMagnitude_eq_reduced]
  split
  · rw [formOf, isDouble_reduced]
    rfl
  · rfl

theorem formOf_nearestDouble (negative : Bool) (n : Nat) (e : Int) :
    formOf (nearestDouble negative n e) = .decimal := by
  rw [nearestDouble]
  split <;> rfl

theorem formOf_of_hasForm {form : Form} (has : HasForm text form) : formOf (read text) = form := by
  cases form with
  | blank => rw [read_of_blank has]; rfl
  | integer =>
    obtain ⟨n, spelled⟩ := has
    rw [read_of_integer spelled, formOf_ofMagnitude]
  | misspelledOctal => rw [read_of_misspelledOctal has]; rfl
  | decimal =>
    obtain ⟨n, e, spelled⟩ := has
    rw [read_of_decimal spelled, formOf_nearestDouble]
  | other =>
    obtain ⟨present, no_integer, no_octal, no_decimal⟩ := has
    rw [read_eq_readBody present]
    rcases readBody_cases (negated text) (unsigned text) with integer | octal | decimal | refused
    · exact absurd integer no_integer
    · exact absurd octal no_octal
    · exact absurd decimal no_decimal
    · rw [refused]
      rfl

theorem exists_hasForm (text : String) : ∃ form, HasForm text form := by
  by_cases blank : HasForm text .blank
  · exact ⟨_, blank⟩
  by_cases integer : HasForm text .integer
  · exact ⟨_, integer⟩
  by_cases octal : HasForm text .misspelledOctal
  · exact ⟨_, octal⟩
  by_cases decimal : HasForm text .decimal
  · exact ⟨_, decimal⟩
  exact ⟨.other, blank, integer, octal, decimal⟩

/-- The outcome of reading tells the form of the text. -/
theorem formOf_read_iff {form : Form} : formOf (read text) = form ↔ HasForm text form := by
  constructor
  · rintro rfl
    obtain ⟨form, has⟩ := exists_hasForm text
    rwa [formOf_of_hasForm has]
  · exact formOf_of_hasForm

theorem formOf_eq_integer_iff {outcome : Except ReadError Number} :
    formOf outcome = .integer ↔
      outcome = .error .tooLarge ∨ ∃ k, outcome = .ok k ∧ k.isDouble = false := by
  rcases outcome with e | k
  · cases e <;> simp [formOf]
  · simp [formOf]

theorem formOf_eq_decimal_iff {outcome : Except ReadError Number} :
    formOf outcome = .decimal ↔
      outcome = .error .doubleTooLarge ∨ ∃ x, outcome = .ok (.double x) := by
  rcases outcome with e | k
  · cases e <;> simp [formOf]
  · cases k <;> simp [formOf, isDouble]

theorem formOf_eq_of_error (outcome : Except ReadError Number) :
    (formOf outcome = .blank ↔ outcome = .error .empty) ∧
      (formOf outcome = .misspelledOctal ↔ outcome = .error .invalidOctal) ∧
      (formOf outcome = .other ↔ outcome = .error .notNumeric) := by
  rcases outcome with e | k
  · cases e <;> simp [formOf]
  · cases k <;> simp [formOf, isDouble]

/-- What a text reads as, by its form. The texts of integers and of doubles are told apart from all
others, and their values are what they spell: integers modulo `2 ^ 64`, and the nearest doubles. The
decimal text of an integer reads as the integer. -/
theorem read_classified (text : String) :
    (read text = .error .empty ↔ trimmed text = []) ∧
      (∀ n, IntegerText (unsigned text) n → read text =
        if n < 2 ^ 64 then .ok (reduced (if negated text then -n else n)) else .error .tooLarge) ∧
      ((read text = .error .tooLarge ∨ ∃ k, read text = .ok k ∧ k.isDouble = false) ↔
        ∃ n, IntegerText (unsigned text) n) ∧
      (read text = .error .invalidOctal ↔ MisspelledOctal (unsigned text)) ∧
      (∀ n e, DecimalText (unsigned text) n e → read text = nearestDouble (negated text) n e) ∧
      ((read text = .error .doubleTooLarge ∨ ∃ x, read text = .ok (.double x)) ↔
        ∃ n e, DecimalText (unsigned text) n e) ∧
      (read text = .error .notNumeric ↔ trimmed text ≠ [] ∧
        (¬ ∃ n, IntegerText (unsigned text) n) ∧ ¬ MisspelledOctal (unsigned text) ∧
          ¬ ∃ n e, DecimalText (unsigned text) n e) ∧
      ∀ v : Int64, read (toString v.toInt) = .ok (ofInt64 v) := by
  obtain ⟨blank, octal, other⟩ := formOf_eq_of_error (read text)
  refine ⟨blank.symm.trans formOf_read_iff, fun n spelled => ?_,
    formOf_eq_integer_iff.symm.trans formOf_read_iff, octal.symm.trans formOf_read_iff,
    fun n e => read_of_decimal, formOf_eq_decimal_iff.symm.trans formOf_read_iff,
    other.symm.trans formOf_read_iff, read_integer⟩
  rw [read_of_integer spelled, ofMagnitude_eq_reduced]

example : read "\t-0x1F " = .ok (.int (-31)) := by decide

end CommandVM.Number
