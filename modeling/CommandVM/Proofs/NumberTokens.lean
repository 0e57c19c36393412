import CommandVM.Proofs.Numerals

/-!
# Which words are numbers

A word is meant as a number when a decimal digit stands at its start or after its sign. The numbers
are an optional sign and a magnitude, said here without the reader. The reader finds these, and
besides them hexadecimal digits with a second sign after their mark: `word_tokens_classified`.
-/

namespace CommandVM

namespace Text

/-- What stands after an optional sign, and the factor that the sign is. -/
inductive AfterSign : List Char → Int → List Char → Prop
  | unsigned {cs : List Char} : AfterSign cs 1 cs
  | plus {cs : List Char} : AfterSign ('+' :: cs) 1 cs
  | minus {cs : List Char} : AfterSign ('-' :: cs) (-1) cs

variable {radix n : Nat} {cs ds : List Char} {c d : Char} {sign factor v low high : Int}

theorem isDigit_minus : isDigit radix '-' = false := by simp [isDigit, digitValue?]

theorem isDigit_plus : isDigit radix '+' = false := by simp [isDigit, digitValue?]

/-- A digit tells where the sign ends. -/
theorem AfterSign.inj (after : AfterSign cs sign (c :: ds)) (digit : isDigit radix c = true)
    {es : List Char} (other : AfterSign cs factor (d :: es)) (digit' : isDigit radix d = true) :
    sign = factor ∧ c :: ds = d :: es := by
  have signs : ¬ isDigit radix '+' = true ∧ ¬ isDigit radix '-' = true := by
    simp [isDigit_plus, isDigit_minus]
  cases after with
  | unsigned =>
    cases other with
    | unsigned => exact ⟨rfl, rfl⟩
    | plus => exact absurd digit signs.1
    | minus => exact absurd digit signs.2
  | plus =>
    cases other with
    | unsigned => exact absurd digit' signs.1
    | plus => exact ⟨rfl, rfl⟩
  | minus =>
    cases other with
    | unsigned => exact absurd digit' signs.2
    | minus => exact ⟨rfl, rfl⟩

theorem Numeral.exists_cons (spelled : Numeral radix cs n) (small : radix ≤ 16) :
    ∃ c ds, cs = c :: ds ∧ Text.isDigit radix c = true := by
  obtain ⟨c, ds, rfl⟩ := List.exists_cons_of_ne_nil spelled.ne_nil
  exact ⟨c, ds, rfl, spelled.isDigit small c List.mem_cons_self⟩

theorem not_numeral_cons (small : radix ≤ 16) (not_digit : isDigit radix c = false) :
    ¬ Numeral radix (c :: cs) n := by
  intro spelled
  have digit := spelled.isDigit small c List.mem_cons_self
  rw [not_digit] at digit
  cases digit

theorem natural?_map_eq_some_iff (small : radix ≤ 16) (f : Nat → Int) :
    (natural? radix cs).map f = some v ↔ ∃ n, Numeral radix cs n ∧ v = f n := by
  rw [Option.map_eq_some_iff]
  simp only [natural?_eq_some_iff small, eq_comm]

/-- The reader of integers takes a sign of its own. -/
theorem integer?_eq_some_iff (small : radix ≤ 16) : integer? radix low high cs = some v ↔
    (∃ sign ds n, AfterSign cs sign ds ∧ Numeral radix ds n ∧ v = sign * n) ∧
      low ≤ v ∧ v ≤ high := by
  unfold integer?
  dsimp only
  rw [Option.filter_eq_some_iff, Bool.and_eq_true, decide_eq_true_eq, decide_eq_true_eq]
  refine and_congr_left fun _ => ?_
  -- A numeral starts with a digit, so that the branch tells which sign there is.
  split
  · next ds =>
    have negated : Option.map (- ·) (natural? radix ds >>= fun n => pure (n : Int)) =
        (natural? radix ds).map fun n : Nat => -(n : Int) := by
      cases natural? radix ds <;> rfl
    rw [negated, natural?_map_eq_some_iff small]
    constructor
    · rintro ⟨n, spelled, rfl⟩
      exact ⟨-1, ds, n, .minus, spelled, by omega⟩
    · rintro ⟨sign, rest, n, after, spelled, rfl⟩
      cases after with
      | unsigned => exact absurd spelled (not_numeral_cons small isDigit_minus)
      | minus => exact ⟨n, spelled, by omega⟩
  · next ds =>
    rw [natural?_map_eq_some_iff small]
    constructor
    · rintro ⟨n, spelled, rfl⟩
      exact ⟨1, ds, n, .plus, spelled, by simp⟩
    · rintro ⟨sign, rest, n, after, spelled, rfl⟩
      cases after with
      | unsigned => exact absurd spelled (not_numeral_cons small isDigit_plus)
      | plus => exact ⟨n, spelled, by simp⟩
  · next no_minus no_plus =>
    rw [natural?_map_eq_some_iff small]
    constructor
    · rintro ⟨n, spelled, rfl⟩
      exact ⟨1, cs, n, .unsigned, spelled, by simp⟩
    · rintro ⟨sign, rest, n, after, spelled, rfl⟩
      cases after with
      | unsigned => exact ⟨n, spelled, by simp⟩
      | plus => exact absurd rfl (no_plus _)
      | minus => exact absurd rfl (no_minus _)

end Text

namespace Listing

open CommandVM.Text

/-! ### The words that are numbers -/

/-- The letter after a zero that announces hexadecimal digits. -/
def IsMark (c : Char) : Prop := c = 'x' ∨ c = 'X'

/-- A magnitude: decimal digits, or hexadecimal digits after their mark. -/
inductive Magnitude : List Char → Nat → Prop
  | decimal {ds : List Char} {n : Nat} : Numeral 10 ds n → Magnitude ds n
  | hexadecimal {mark : Char} {ds : List Char} {n : Nat} :
    IsMark mark → Numeral 16 ds n → Magnitude ('0' :: mark :: ds) n

/-- Hexadecimal digits with a sign between them and their mark, and an integer of 64 bits that they
spell with this sign. -/
inductive MarkedSign : List Char → Int → Prop
  | plus {mark : Char} {ds : List Char} {n : Nat} : IsMark mark → Numeral 16 ds n → n < 2 ^ 63 →
    MarkedSign ('0' :: mark :: '+' :: ds) n
  | minus {mark : Char} {ds : List Char} {n : Nat} : IsMark mark → Numeral 16 ds n → n ≤ 2 ^ 63 →
    MarkedSign ('0' :: mark :: '-' :: ds) (-n)

/-- The word is a number: an optional sign and a magnitude of at most 63 bits. -/
def IsNumber (w : List Char) (v : Int) : Prop :=
  ∃ sign body n, AfterSign w sign body ∧ Magnitude body n ∧ n ≤ 2 ^ 63 - 1 ∧ v = sign * n

/-- The word has a sign after the mark of its hexadecimal digits, besides the optional one in
front. -/
def HasMarkedSign (w : List Char) (v : Int) : Prop :=
  ∃ sign body k, AfterSign w sign body ∧ MarkedSign body k ∧ v = sign * k

/-- A decimal digit stands at the start of the word or after its sign. -/
def Numeric (w : List Char) : Prop :=
  ∃ sign c cs, AfterSign w sign (c :: cs) ∧ c.isDigit = true

/-! ### Magnitudes -/

variable {w body cs : List Char} {c mark : Char} {v k sign : Int}

theorem not_isDigit_of_isMark (is_mark : IsMark mark) : isDigit 10 mark = false := by
  rcases is_mark with rfl | rfl <;> decide

theorem Magnitude.exists_cons {n : Nat} (spelled : Magnitude body n) :
    ∃ c cs, body = c :: cs ∧ isDigit 10 c = true := by
  cases spelled with
  | decimal spelled => exact spelled.exists_cons (by decide)
  | hexadecimal _ _ => exact ⟨_, _, rfl, by decide⟩

theorem MarkedSign.exists_cons (marked : MarkedSign body k) :
    ∃ c cs, body = c :: cs ∧ isDigit 10 c = true := by
  cases marked <;> exact ⟨_, _, rfl, by decide⟩

/-- What the reader of magnitudes finds: a magnitude, or digits with a sign after their mark. -/
def Found (body : List Char) (k : Int) : Prop :=
  (∃ n : Nat, Magnitude body n ∧ n ≤ 2 ^ 63 - 1 ∧ k = n) ∨ MarkedSign body k

theorem Found.exists_cons (found : Found body k) :
    ∃ c cs, body = c :: cs ∧ isDigit 10 c = true := by
  rcases found with ⟨n, spelled, -⟩ | marked
  · exact spelled.exists_cons
  · exact marked.exists_cons

theorem int64?_eq_some_iff {radix : Nat} (small : radix ≤ 16) : int64? radix cs = some v ↔
    (∃ sign ds n, AfterSign cs sign ds ∧ Numeral radix ds n ∧ v = sign * n) ∧
      -2 ^ 63 ≤ v ∧ v ≤ 2 ^ 63 - 1 := by
  rw [int64?, integer?_eq_some_iff small]
  norm_num

theorem found_marked_iff (is_mark : IsMark mark) :
    int64? 16 cs = some k ↔ Found ('0' :: mark :: cs) k := by
  rw [int64?_eq_some_iff (by decide)]
  constructor
  · rintro ⟨⟨sign, ds, n, after, spelled, rfl⟩, low, high⟩
    cases after with
    | unsigned => exact .inl ⟨n, .hexadecimal is_mark spelled, by omega, by omega⟩
    | plus =>
      rw [one_mul]
      exact .inr (.plus is_mark spelled (by omega))
    | minus =>
      rw [neg_one_mul]
      exact .inr (.minus is_mark spelled (by omega))
  · rintro (⟨n, spelled, small, rfl⟩ | marked)
    · cases spelled with
      | decimal spelled =>
        have digit := spelled.isDigit (by decide) mark (by simp)
        rw [not_isDigit_of_isMark is_mark] at digit
        cases digit
      | hexadecimal _ spelled =>
        exact ⟨⟨1, cs, n, .unsigned, spelled, by omega⟩, by omega, by omega⟩
    · cases marked with
      | plus _ spelled small => exact ⟨⟨1, _, _, .plus, spelled, by omega⟩, by omega, by omega⟩
      | minus _ spelled small => exact ⟨⟨-1, _, _, .minus, spelled, by omega⟩, by omega, by omega⟩

theorem magnitude?_eq_some_iff (digit : isDigit 10 c = true) :
    magnitude? (c :: cs) = some k ↔ Found (c :: cs) k := by
  unfold magnitude?
  split
  · next same =>
    rw [same]
    exact found_marked_iff (.inl rfl)
  · next same =>
    rw [same]
    exact found_marked_iff (.inr rfl)
  · next unmarked unmarked' =>
    rw [int64?_eq_some_iff (by decide)]
    constructor
    · rintro ⟨⟨sign, ds, n, after, spelled, rfl⟩, low, high⟩
      -- The text starts with a digit, which leaves no room for the sign that the reader allows.
      obtain ⟨d, es, rfl, digit'⟩ := spelled.exists_cons (by decide)
      obtain ⟨rfl, same⟩ := AfterSign.unsigned.inj digit after digit'
      rw [← same] at spelled
      exact .inl ⟨n, .decimal spelled, by omega, by omega⟩
    · rintro (⟨n, spelled, small, rfl⟩ | marked)
      · cases spelled with
        | decimal spelled =>
          exact ⟨⟨1, _, n, .unsigned, spelled, by omega⟩, by omega, by omega⟩
        | hexadecimal is_mark _ =>
          rcases is_mark with rfl | rfl
          · exact absurd rfl (unmarked _)
          · exact absurd rfl (unmarked' _)
      · cases marked with
        | plus is_mark _ _ | minus is_mark _ _ =>
          rcases is_mark with rfl | rfl
          · exact absurd rfl (unmarked _)
          · exact absurd rfl (unmarked' _)

/-! ### Words -/

theorem exists_afterSign_unsignedPart (w : List Char) :
    ∃ sign, AfterSign w sign (unsignedPart w) := by
  unfold unsignedPart
  split
  · exact ⟨_, .minus⟩
  · exact ⟨_, .plus⟩
  · exact ⟨_, .unsigned⟩

theorem wordToken_of_not_numeric (plain : ¬ Numeric w) :
    wordToken w = .ok (.word (String.ofList w)) := by
  obtain ⟨sign, after⟩ := exists_afterSign_unsignedPart w
  have no_digit : ((unsignedPart w).head?.map (isDigit 10)).getD false = false := by
    cases start : unsignedPart w with
    | nil => rfl
    | cons c cs =>
      rw [start] at after
      cases digit : isDigit 10 c with
      | false => exact digit
      | true => exact absurd ⟨sign, c, cs, after, isDigit_ten c ▸ digit⟩ plain
  unfold wordToken
  simp only [no_digit, Bool.false_eq_true, if_false]

/-- What 64 bits hold of an integer. -/
def reduced (v : Int) : Int := (Int64.ofInt v).toInt

theorem reduced_eq (low : -2 ^ 63 ≤ v) (high : v < 2 ^ 63) : reduced v = v :=
  Int64.toInt_ofInt_of_le low high

theorem Found.bounds (found : Found body k) : -2 ^ 63 ≤ k ∧ k < 2 ^ 63 := by
  rcases found with ⟨n, _, small, rfl⟩ | marked
  · omega
  · cases marked with
    | plus _ _ small | minus _ _ small => omega

/-- A word with a digit at its start or after its sign is read by its magnitude. -/
theorem wordToken_of_afterSign (after : AfterSign w sign (c :: cs)) (digit : isDigit 10 c = true) :
    wordToken w = ((magnitude? (c :: cs)).map fun k => .ok (.number (reduced (sign * k)))).getD
      (.error (.invalidNumber (String.ofList w))) := by
  have signs : c ≠ '-' ∧ c ≠ '+' := by
    constructor <;> rintro rfl <;> exact absurd digit (by decide)
  have whole (k : Int) (read : magnitude? (c :: cs) = some k) : k = reduced (1 * k) := by
    obtain ⟨low, high⟩ := ((magnitude?_eq_some_iff digit).mp read).bounds
    rw [one_mul, reduced_eq low high]
  have negated (k : Int) : (-Int64.ofInt k).toInt = reduced (-1 * k) := by
    rw [neg_one_mul, reduced, Int64.ofInt_neg]
  unfold wordToken
  cases after with
  | unsigned =>
    have body : unsignedPart (c :: cs) = c :: cs := by
      unfold unsignedPart
      split
      · next same => cases same; exact absurd rfl signs.1
      · next same => cases same; exact absurd rfl signs.2
      · rfl
    simp only [body, List.head?_cons, Option.map_some, Option.getD_some, digit, if_true]
    cases read : magnitude? (c :: cs) with
    | none => rfl
    | some k => simpa [signs.1] using whole k read
  | plus =>
    simp only [unsignedPart, List.head?_cons, Option.map_some, Option.getD_some, digit, if_true]
    cases read : magnitude? (c :: cs) with
    | none => rfl
    | some k => simpa using whole k read
  | minus =>
    simp only [unsignedPart, List.head?_cons, Option.map_some, Option.getD_some, digit, if_true]
    cases magnitude? (c :: cs) with
    | none => rfl
    | some k => simpa using negated k

/-- The word is taken as a number: what is found after its optional sign, with this sign and in 64
bits. -/
def Taken (w : List Char) (v : Int) : Prop :=
  ∃ sign body k, AfterSign w sign body ∧ Found body k ∧ v = reduced (sign * k)

theorem IsNumber.reduced_eq (number : IsNumber w v) : reduced v = v := by
  obtain ⟨sign, body, n, after, _, small, rfl⟩ := number
  cases after <;> exact Listing.reduced_eq (by omega) (by omega)

theorem taken_iff : Taken w v ↔ IsNumber w v ∨ ∃ k, HasMarkedSign w k ∧ v = reduced k := by
  constructor
  · rintro ⟨sign, body, k, after, ⟨n, spelled, small, rfl⟩ | marked, value⟩
    · have number : IsNumber w (sign * n) := ⟨sign, body, n, after, spelled, small, rfl⟩
      rw [value, number.reduced_eq]
      exact .inl number
    · exact .inr ⟨sign * k, ⟨sign, body, k, after, marked, rfl⟩, value⟩
  · rintro (number | ⟨_, ⟨sign, body, k, after, marked, rfl⟩, value⟩)
    · have whole := number.reduced_eq
      obtain ⟨sign, body, n, after, spelled, small, rfl⟩ := number
      exact ⟨sign, body, n, after, .inl ⟨n, spelled, small, rfl⟩, whole.symm⟩
    · exact ⟨sign, body, k, after, .inr marked, value⟩

/-- No number has a sign after its mark. -/
theorem HasMarkedSign.not_number (marked : HasMarkedSign w k) : ¬ IsNumber w v := by
  rintro ⟨factor, body, n, other, spelled, -⟩
  obtain ⟨sign, body', k', after, marked, -⟩ := marked
  obtain ⟨c, cs, rfl, digit⟩ := spelled.exists_cons
  obtain ⟨d, ds, rfl, digit'⟩ := marked.exists_cons
  -- Both readings start with a digit, so they are of the same text.
  rw [(other.inj digit after digit').2] at spelled
  cases marked with
  | plus is_mark _ _ | minus is_mark _ _ =>
    cases spelled with
    | decimal spelled =>
      have digit := spelled.isDigit (by decide) _ (List.mem_cons_of_mem _ List.mem_cons_self)
      rw [not_isDigit_of_isMark is_mark] at digit
      cases digit
    | hexadecimal _ spelled =>
      exact absurd (spelled.isDigit (by decide) _ List.mem_cons_self) (by decide)

theorem HasMarkedSign.le (marked : HasMarkedSign w v) : -2 ^ 63 ≤ v := by
  obtain ⟨sign, body, k, after, marked, rfl⟩ := marked
  obtain ⟨low, high⟩ := Found.bounds (.inr marked)
  cases after <;> omega

theorem wordToken_of_taken (taken : Taken w v) : wordToken w = .ok (.number v) := by
  obtain ⟨sign, body, k, after, found, rfl⟩ := taken
  obtain ⟨c, cs, rfl, digit⟩ := found.exists_cons
  rw [wordToken_of_afterSign after digit, (magnitude?_eq_some_iff digit).mpr found]
  rfl

theorem wordToken_of_misspelled (numeric : Numeric w) (misspelled : ∀ v, ¬ Taken w v) :
    wordToken w = .error (.invalidNumber (String.ofList w)) := by
  obtain ⟨sign, c, cs, after, decimal⟩ := numeric
  rw [← isDigit_ten] at decimal
  rw [wordToken_of_afterSign after decimal]
  cases read : magnitude? (c :: cs) with
  | none => rfl
  | some k =>
    have found := (magnitude?_eq_some_iff decimal).mp read
    exact absurd ⟨sign, _, k, after, found, rfl⟩ (misspelled (reduced (sign * k)))

/-- What may come of a word. -/
inductive Outcome (w : List Char) : Except Problem Token → Prop
  | number {v : Int} : Taken w v → Outcome w (.ok (.number v))
  | word : ¬ Numeric w → Outcome w (.ok (.word (String.ofList w)))
  | misspelled : Numeric w → (∀ v, ¬ Taken w v) →
    Outcome w (.error (.invalidNumber (String.ofList w)))

theorem wordToken_eq_iff {outcome : Except Problem Token} :
    wordToken w = outcome ↔ Outcome w outcome := by
  constructor
  · rintro rfl
    by_cases taken : ∃ v, Taken w v
    · obtain ⟨v, taken⟩ := taken
      rw [wordToken_of_taken taken]
      exact .number taken
    · by_cases numeric : Numeric w
      · rw [wordToken_of_misspelled numeric (not_exists.mp taken)]
        exact .misspelled numeric (not_exists.mp taken)
      · rw [wordToken_of_not_numeric numeric]
        exact .word numeric
  · intro outcome
    cases outcome with
    | number taken => exact wordToken_of_taken taken
    | word plain => exact wordToken_of_not_numeric plain
    | misspelled numeric misspelled => exact wordToken_of_misspelled numeric misspelled

theorem wordToken_eq_number_iff :
    wordToken w = .ok (.number v) ↔ IsNumber w v ∨ ∃ k, HasMarkedSign w k ∧ v = reduced k := by
  rw [wordToken_eq_iff, ← taken_iff]
  constructor
  · intro outcome
    cases outcome with
    | number taken => exact taken
  · exact .number

theorem wordToken_eq_word_iff {t : String} :
    wordToken w = .ok (.word t) ↔ t = String.ofList w ∧ ¬ Numeric w := by
  rw [wordToken_eq_iff]
  constructor
  · intro outcome
    cases outcome with
    | word plain => exact ⟨rfl, plain⟩
  · rintro ⟨rfl, plain⟩
    exact .word plain

theorem wordToken_eq_error_iff {e : Problem} :
    wordToken w = .error e ↔ e = .invalidNumber (String.ofList w) ∧ Numeric w ∧
      (¬ ∃ v, IsNumber w v) ∧ ¬ ∃ v, HasMarkedSign w v := by
  have taken : (∃ v, Taken w v) ↔ (∃ v, IsNumber w v) ∨ ∃ v, HasMarkedSign w v := by
    simp only [taken_iff, exists_or]
    exact or_congr_right ⟨fun ⟨_, k, marked, _⟩ => ⟨k, marked⟩,
      fun ⟨k, marked⟩ => ⟨_, k, marked, rfl⟩⟩
  rw [wordToken_eq_iff, ← not_or, ← taken, not_exists]
  constructor
  · intro outcome
    cases outcome with
    | misspelled numeric misspelled => exact ⟨rfl, numeric, misspelled⟩
  · rintro ⟨rfl, numeric, misspelled⟩
    exact .misspelled numeric misspelled

/-- Every number is read as its value, and a word stays a word when no digit stands at its start or
after its sign. Only numbers are read as numbers, unless a sign stands after the mark of hexadecimal
digits: the reader of the digits takes this sign too, and gives the value with both signs where 64
bits hold it. All other words are refused. -/
theorem word_tokens_classified (w : List Char) :
    (∀ v, IsNumber w v → wordToken w = .ok (.number v)) ∧
      ((∀ v, wordToken w = .ok (.number v) ↔ IsNumber w v) ↔ ¬ ∃ v, HasMarkedSign w v) ∧
      (∀ v, HasMarkedSign w v → v < 2 ^ 63 → wordToken w = .ok (.number v)) ∧
      (∀ t, wordToken w = .ok (.word t) ↔ t = String.ofList w ∧ ¬ Numeric w) ∧
      ∀ e, wordToken w = .error e ↔ e = .invalidNumber (String.ofList w) ∧ Numeric w ∧
        (¬ ∃ v, IsNumber w v) ∧ ¬ ∃ v, HasMarkedSign w v := by
  have read {k : Int} (marked : HasMarkedSign w k) : wordToken w = .ok (.number (reduced k)) :=
    wordToken_eq_number_iff.mpr (.inr ⟨k, marked, rfl⟩)
  refine ⟨fun v number => wordToken_eq_number_iff.mpr (.inl number), ⟨?_, ?_⟩, ?_,
    fun t => wordToken_eq_word_iff, fun e => wordToken_eq_error_iff⟩
  · rintro only ⟨v, marked⟩
    exact marked.not_number ((only _).mp (read marked))
  · intro unmarked v
    rw [wordToken_eq_number_iff]
    exact or_iff_left fun ⟨k, marked, _⟩ => unmarked ⟨k, marked⟩
  · intro v marked small
    rw [read marked, reduced_eq marked.le small]

/-- A minus after the mark. -/
theorem marked_minus_is_read :
    IsWord "0x-5".toList ∧ wordToken "0x-5".toList = .ok (.number (-5)) ∧
      ¬ ∃ v, IsNumber "0x-5".toList v := by
  have five : Numeral 16 ['5'] 5 := .digit ⟨by decide, .inl rfl⟩
  have marked : HasMarkedSign "0x-5".toList (-5) :=
    ⟨1, _, -5, .unsigned, .minus (.inl rfl) five (by decide), rfl⟩
  refine ⟨⟨by decide, List.all_eq_true.mp (by decide)⟩, by decide, ?_⟩
  rintro ⟨v, number⟩
  exact marked.not_number number

end Listing

end CommandVM
