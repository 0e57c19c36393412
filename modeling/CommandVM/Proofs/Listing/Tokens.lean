import CommandVM.Listing.Token
import CommandVM.Text.Lines
import Mathlib.Data.List.Forall2

/-!
# Written tokens read back

A token that is followed by a space or by the end of the line is read as it was written: a decimal
number, a string in double quotes, or a word that does not look like a number. A line of such tokens
with a space between them is read token by token.
-/

namespace CommandVM

namespace Text

/-! ### Digits -/

variable {radix : Nat}

theorem digitsFrom?_append (start : Nat) (cs ds : List Char) :
    digitsFrom? radix start (cs ++ ds) =
      (digitsFrom? radix start cs).bind fun n => digitsFrom? radix n ds := by
  induction cs generalizing start with
  | nil => rfl
  | cons c cs ih =>
    rw [List.cons_append, digitsFrom?, digitsFrom?]
    cases digitValue? radix c with
    | none => rfl
    | some d => exact ih _

/-- Digits are spelled so that they read back. -/
def Spelled (radix : Nat) : Prop := ∀ d < radix, digitValue? radix d.digitChar = some d

theorem spelled_ten : Spelled 10 := by
  unfold Spelled
  decide

theorem spelled_sixteen : Spelled 16 := by
  unfold Spelled
  decide

theorem digitsFrom?_toDigits (spelled : Spelled radix) (large : 1 < radix) (n : Nat) :
    digitsFrom? radix 0 (Nat.toDigits radix n) = some n := by
  induction n using Nat.strongRecOn with
  | ind n ih =>
    by_cases single : n < radix
    · rw [Nat.toDigits_of_lt_base single, digitsFrom?, spelled n single]
      simp [digitsFrom?]
    · have more : radix ≤ n := Nat.le_of_not_lt single
      have last := spelled (n % radix) (Nat.mod_lt n (by omega))
      have less : n / radix < n := Nat.div_lt_self (by omega) large
      rw [Nat.toDigits_of_base_le large more, digitsFrom?_append, ih _ less, Option.bind_some,
        digitsFrom?, last]
      simp only [digitsFrom?, Option.some.injEq]
      exact Nat.div_add_mod' n radix

theorem natural?_toDigits (spelled : Spelled radix) (large : 1 < radix) (n : Nat) :
    natural? radix (Nat.toDigits radix n) = some n := by
  cases digits : Nat.toDigits radix n with
  | nil => exact absurd digits Nat.toDigits_ne_nil
  | cons c cs =>
    show digitsFrom? radix 0 (c :: cs) = some n
    rw [← digits]
    exact digitsFrom?_toDigits spelled large n

theorem isDigit_of_digitsFrom? {start n : Nat} {cs : List Char}
    (read : digitsFrom? radix start cs = some n) : ∀ c ∈ cs, isDigit radix c = true := by
  induction cs generalizing start with
  | nil => simp
  | cons d cs ih =>
    unfold digitsFrom? at read
    split at read
    · next value found =>
      intro c member
      rcases List.mem_cons.mp member with rfl | later
      · rw [isDigit, found]
        rfl
      · exact ih read c later
    · cases read

theorem isDigit_toDigits (spelled : Spelled radix) (large : 1 < radix) (n : Nat) :
    ∀ c ∈ Nat.toDigits radix n, isDigit radix c = true :=
  isDigit_of_digitsFrom? (digitsFrom?_toDigits spelled large n)

theorem char?_toNat (c : Char) : char? c.toNat = some c := by
  have valid := c.valid
  unfold char?
  rw [Char.ofNat_toNat, if_pos]
  rcases valid with low | ⟨above, below⟩
  · simp only [Bool.or_eq_true, decide_eq_true_eq]
    exact .inl low
  · simp only [Bool.or_eq_true, Bool.and_eq_true, decide_eq_true_eq]
    exact .inr ⟨above, below⟩

end Text

namespace Listing

open CommandVM.Text

/-! ### Strings -/

theorem codePoint_toDigits (c : Char) (short : c.toNat < 256) (rest : List Char) :
    codePoint ('\x7b' :: (Nat.toDigits 16 c.toNat ++ '\x7d' :: rest)) = .ok (c, rest) := by
  generalize written : Nat.toDigits 16 c.toNat = digits
  have few : digits.length ≤ 2 := by
    rw [← written]
    exact (Nat.length_toDigits_le_iff (by decide) (by decide)).mpr short
  have all : ∀ d ∈ digits, isDigit 16 d = true := by
    rw [← written]
    exact isDigit_toDigits spelled_sixteen (by decide) _
  have value : natural? 16 digits = some c.toNat := by
    rw [← written]
    exact natural?_toDigits spelled_sixteen (by decide) _
  -- Two digits leave room in the first six characters for the brace that ends the run.
  have run : ((digits ++ '\x7d' :: rest).take 6).takeWhile (isDigit 16) = digits := by
    obtain ⟨room, more⟩ : ∃ room, 6 - digits.length = room + 1 := ⟨5 - digits.length, by omega⟩
    rw [List.take_append, List.take_of_length_le (by omega), more, List.take_succ_cons,
      List.takeWhile_append_of_pos all, List.takeWhile_cons_of_neg (by decide), List.append_nil]
  unfold codePoint
  simp only [run, List.drop_left, value, Option.bind_some, char?_toNat]

theorem stringText_escape {cs rest : List Char} {c : Char} (read : escape cs = .ok (c, rest)) :
    stringText ('\\' :: cs) = (stringText rest).map fun p => (c :: p.1, p.2) := by
  rw [stringText]
  simp only [show ('\\' == '"') = false from rfl, beq_self_eq_true, if_true, Bool.false_eq_true,
    if_false]
  split
  · next failed => rw [read] at failed; cases failed
  · next d more found =>
    rw [read] at found
    cases found
    cases stringText rest <;> rfl

theorem stringText_quotedChar (c : Char) (cs : List Char) :
    stringText (quotedChar c ++ cs) = (stringText cs).map fun p => (c :: p.1, p.2) := by
  unfold quotedChar
  by_cases named : c = '"' ∨ c = '\\' ∨ c = '\n' ∨ c = '\t' ∨ c = '\r'
  · rcases named with rfl | rfl | rfl | rfl | rfl <;> exact stringText_escape rfl
  · simp only [not_or] at named
    obtain ⟨quote, backslash, feed, tab, carriage⟩ := named
    simp only [beq_iff_eq, quote, backslash, feed, tab, carriage, if_false]
    split
    · next control =>
      have short : c.toNat < 256 := by
        simp only [isControl, Bool.or_eq_true, Bool.and_eq_true, decide_eq_true_eq] at control
        omega
      simp only [List.cons_append, List.append_assoc, List.nil_append]
      apply stringText_escape
      exact codePoint_toDigits c short cs
    · rw [List.singleton_append, stringText]
      simp only [beq_iff_eq, quote, backslash, if_false]
      cases stringText cs <;> rfl

theorem stringText_flatMap_quotedChar (text rest : List Char) :
    stringText (text.flatMap quotedChar ++ '"' :: rest) = .ok (text, rest) := by
  induction text with
  | nil => rw [List.flatMap_nil, List.nil_append, stringText]; rfl
  | cons c text ih =>
    rw [List.flatMap_cons, List.append_assoc, stringText_quotedChar, ih]
    rfl

/-! ### Tokens -/

/-- Nothing follows on the line, or a space does. -/
def Stops (rest : List Char) : Prop := rest = [] ∨ ∃ more, rest = ' ' :: more

/-- The text has no line end. -/
def Unbroken (cs : List Char) : Prop := ∀ c ∈ cs, c ≠ '\n' ∧ c ≠ '\r'

/-- The text is read as a token, whatever follows after a space. -/
structure Spells (cs : List Char) (t : Token) : Prop where
  unbroken : Unbroken cs
  reads : ∀ rest, Stops rest → tokens (cs ++ rest) = (tokens rest).map (t :: ·)

theorem unbroken_of_isWordChar {cs : List Char} (chars : ∀ c ∈ cs, isWordChar c = true) :
    Unbroken cs := by
  intro c member
  constructor <;> rintro rfl <;> exact absurd (chars _ member) (by decide)

theorem unbroken_quotedChar (c : Char) : Unbroken (quotedChar c) := by
  unfold quotedChar
  by_cases named : c = '"' ∨ c = '\\' ∨ c = '\n' ∨ c = '\t' ∨ c = '\r'
  · rcases named with rfl | rfl | rfl | rfl | rfl <;> simp [Unbroken]
  · simp only [not_or] at named
    obtain ⟨quote, backslash, feed, tab, carriage⟩ := named
    simp only [beq_iff_eq, quote, backslash, feed, tab, carriage, if_false]
    split
    · intro d member
      simp only [List.mem_append, List.mem_cons, List.not_mem_nil, or_false] at member
      rcases member with (rfl | rfl | rfl | digit) | rfl
      case inl.inr.inr.inr =>
        have hex := isDigit_toDigits spelled_sixteen (by decide) _ d digit
        constructor <;> rintro rfl <;> exact absurd hex (by decide)
      all_goals decide
    · intro d member
      rw [List.mem_singleton.mp member]
      exact ⟨feed, carriage⟩

theorem unbroken_quoted (s : String) : Unbroken (quoted s).toList := by
  intro c member
  rw [quoted, String.toList_ofList, quotedChars] at member
  simp only [List.mem_append, List.mem_cons, List.mem_flatMap, List.not_mem_nil, or_false] at member
  rcases member with (rfl | ⟨d, _, inner⟩) | rfl
  · decide
  · exact unbroken_quotedChar d c inner
  · decide

/-- A string is closed by its quote, so that anything may follow it. -/
theorem tokens_quoted_append (s : String) (rest : List Char) :
    tokens ((quoted s).toList ++ rest) = (tokens rest).map (.str s :: ·) := by
  have read := stringText_flatMap_quotedChar s.toList rest
  rw [quoted, String.toList_ofList, quotedChars, List.cons_append, List.cons_append,
    List.append_assoc, List.singleton_append, tokens]
  simp only [show isBlank '"' = false from by decide, show ('"' == ';') = false from rfl,
    beq_self_eq_true, Bool.false_eq_true, if_false, if_true]
  split
  · next failed => rw [read] at failed; cases failed
  · next text more found =>
    rw [read] at found
    cases found
    rw [String.ofList_toList]
    cases tokens rest <;> rfl

theorem spells_quoted (s : String) : Spells (quoted s).toList (.str s) :=
  ⟨unbroken_quoted s, fun rest _ => tokens_quoted_append s rest⟩

theorem takeWhile_stops {rest : List Char} (stops : Stops rest) :
    rest.takeWhile isWordChar = [] ∧ rest.dropWhile isWordChar = rest := by
  rcases stops with rfl | ⟨more, rfl⟩
  · exact ⟨rfl, rfl⟩
  · have space : ¬ isWordChar ' ' = true := by decide
    exact ⟨List.takeWhile_cons_of_neg space, List.dropWhile_cons_of_neg space⟩

theorem tokens_space (rest : List Char) : tokens (' ' :: rest) = tokens rest := by
  rw [tokens, if_pos (by decide)]

/-- One or more characters that all continue a word. -/
def IsWord (cs : List Char) : Prop := cs ≠ [] ∧ ∀ c ∈ cs, isWordChar c = true

theorem tokens_word_append {cs rest : List Char} (word : IsWord cs) (stops : Stops rest) :
    tokens (cs ++ rest) = (wordToken cs).bind fun t => (tokens rest).map (t :: ·) := by
  obtain ⟨some_char, chars⟩ := word
  obtain ⟨taken, dropped⟩ := takeWhile_stops stops
  cases cs with
  | nil => exact absurd rfl some_char
  | cons c cs =>
    have first := chars c List.mem_cons_self
    have others : ∀ d ∈ cs, isWordChar d = true := fun d member =>
      chars d (List.mem_cons_of_mem _ member)
    simp only [isWordChar, Bool.and_eq_true, Bool.not_eq_true', bne_iff_ne] at first
    obtain ⟨⟨blank, semicolon⟩, quote⟩ := first
    rw [List.cons_append, tokens]
    simp only [blank, beq_iff_eq, semicolon, quote, Bool.false_eq_true, if_false]
    rw [List.takeWhile_append_of_pos others, List.dropWhile_append_of_pos others, taken, dropped,
      List.append_nil]
    cases wordToken (c :: cs) with
    | error e => rfl
    | ok t => cases tokens rest <;> rfl

theorem spells_of_wordToken {cs : List Char} {t : Token} (some_char : cs ≠ [])
    (chars : ∀ c ∈ cs, isWordChar c = true) (read : wordToken cs = .ok t) : Spells cs t := by
  refine ⟨unbroken_of_isWordChar chars, fun rest stops => ?_⟩
  rw [tokens_word_append ⟨some_char, chars⟩ stops, read]
  rfl

/-- A word that does not look like a number. -/
def isPlainWord (cs : List Char) : Bool :=
  cs.all isWordChar && match cs with
    | [] => false
    | c :: _ => !isDigit 10 c && c != '-' && c != '+'

theorem isPlainWord_append {cs ds : List Char} (plain : isPlainWord cs = true)
    (chars : ∀ d ∈ ds, isWordChar d = true) : isPlainWord (cs ++ ds) = true := by
  cases cs with
  | nil => simp [isPlainWord] at plain
  | cons c cs =>
    simp only [isPlainWord, List.cons_append, List.all_cons, List.all_append, Bool.and_eq_true,
      List.all_eq_true] at plain ⊢
    exact ⟨⟨plain.1.1, plain.1.2, chars⟩, plain.2⟩

theorem spells_word (w : String) (plain : isPlainWord w.toList = true) :
    Spells w.toList (.word w) := by
  cases written : w.toList with
  | nil => simp [written, isPlainWord] at plain
  | cons c cs =>
    rw [written] at plain
    simp only [isPlainWord, Bool.and_eq_true, List.all_eq_true, Bool.not_eq_true',
      bne_iff_ne] at plain
    obtain ⟨chars, ⟨digit, minus⟩, plus⟩ := plain
    apply spells_of_wordToken (by simp) chars
    have body : unsignedPart (c :: cs) = c :: cs := by
      unfold unsignedPart
      split
      · next same => cases same; exact absurd rfl minus
      · next same => cases same; exact absurd rfl plus
      · rfl
    unfold wordToken
    simp only [body, List.head?_cons, Option.map_some, Option.getD_some, digit,
      Bool.false_eq_true, if_false]
    rw [← written, String.ofList_toList]

/-! ### Numbers -/

theorem isWordChar_of_between {c : Char} (low : 34 < c.toNat) (high : c.toNat < 127)
    (other : c ≠ ';') : isWordChar c = true := by
  have blank : isBlank c = false := by
    simp only [isBlank, blankIntervals, List.any_cons, List.any_nil, Bool.or_false,
      Bool.or_eq_false_iff, Bool.and_eq_false_iff, decide_eq_false_iff_not]
    omega
  have quote : c ≠ '"' := by
    rintro rfl
    exact absurd low (by decide)
  simp only [isWordChar, blank, Bool.not_false, Bool.true_and, Bool.and_eq_true, bne_iff_ne]
  exact ⟨other, quote⟩

theorem isWordChar_toDigits (n : Nat) : ∀ c ∈ Nat.toDigits 10 n, isWordChar c = true := by
  intro c member
  have digit := Nat.isDigit_of_mem_toDigits (by decide) (by decide) member
  simp only [Char.isDigit, Bool.and_eq_true, decide_eq_true_eq, ge_iff_le,
    UInt32.le_iff_toNat_le] at digit
  have low : 48 ≤ c.toNat := digit.1
  have high : c.toNat ≤ 57 := digit.2
  apply isWordChar_of_between (by omega) (by omega)
  rintro rfl
  exact absurd high (by decide)

theorem toDigits_ne_cons {n : Nat} {c : Char} {cs : List Char} (not_digit : isDigit 10 c = false) :
    Nat.toDigits 10 n ≠ c :: cs := by
  intro same
  have digit := isDigit_toDigits spelled_ten (by decide) n c (by rw [same]; exact List.mem_cons_self)
  rw [not_digit] at digit
  cases digit

theorem magnitude?_toDigits {n : Nat} (small : n ≤ 0x7fffffffffffffff) :
    magnitude? (Nat.toDigits 10 n) = some (n : Int) := by
  have digits := isDigit_toDigits spelled_ten (by decide) n
  have decimal : magnitude? (Nat.toDigits 10 n) = int64? 10 (Nat.toDigits 10 n) := by
    unfold magnitude?
    split
    · next same => rw [same] at digits; exact absurd (digits 'x' (by simp)) (by decide)
    · next same => rw [same] at digits; exact absurd (digits 'X' (by simp)) (by decide)
    · rfl
  rw [decimal, int64?]
  unfold integer?
  dsimp only
  split
  · next same => exact absurd same (toDigits_ne_cons (by decide))
  · next same => exact absurd same (toDigits_ne_cons (by decide))
  · rw [natural?_toDigits spelled_ten (by decide), Option.map_some, Option.filter_some, if_pos]
    · rfl
    · simp only [Int.ofNat_eq_natCast, Bool.and_eq_true, decide_eq_true_eq]
      omega

theorem head?_toDigits (n : Nat) :
    ((Nat.toDigits 10 n).head?.map (isDigit 10)).getD false = true := by
  have digits := isDigit_toDigits spelled_ten (by decide) n
  cases written : Nat.toDigits 10 n with
  | nil => exact absurd written Nat.toDigits_ne_nil
  | cons c cs =>
    rw [written] at digits
    exact digits c List.mem_cons_self

theorem spells_natural {n : Nat} (small : n ≤ 0x7fffffffffffffff) :
    Spells (toString n).toList (.number n) := by
  rw [Nat.toString_eq_repr, Nat.toList_repr]
  apply spells_of_wordToken Nat.toDigits_ne_nil (isWordChar_toDigits n)
  have body : unsignedPart (Nat.toDigits 10 n) = Nat.toDigits 10 n := by
    unfold unsignedPart
    split
    · next same => exact absurd same (toDigits_ne_cons (by decide))
    · next same => exact absurd same (toDigits_ne_cons (by decide))
    · rfl
  have unsigned : ¬ (Nat.toDigits 10 n).head? = some '-' := by
    intro minus
    have digit := head?_toDigits n
    rw [minus] at digit
    exact absurd digit (by decide)
  unfold wordToken
  simp only [body, head?_toDigits, magnitude?_toDigits small, beq_iff_eq, unsigned, if_true,
    if_false]

theorem spells_negative {n : Nat} (small : n ≤ 0x7fffffffffffffff) :
    Spells ('-' :: (toString n).toList) (.number (-n)) := by
  rw [Nat.toString_eq_repr, Nat.toList_repr]
  apply spells_of_wordToken (List.cons_ne_nil _ _)
  · intro c member
    rcases List.mem_cons.mp member with rfl | digit
    · decide
    · exact isWordChar_toDigits n c digit
  · have negated : (-Int64.ofInt n).toInt = -n := by
      rw [← Int64.ofInt_neg]
      exact Int64.toInt_ofInt_of_le (by omega) (by omega)
    unfold wordToken
    simp only [unsignedPart, head?_toDigits, magnitude?_toDigits small, List.head?_cons,
      beq_self_eq_true, if_true, negated]

theorem spells_integer {n : Int} (low : -0x7fffffffffffffff ≤ n) (high : n ≤ 0x7fffffffffffffff) :
    Spells (toString n).toList (.number n) := by
  rw [Int.toString_eq_repr, Int.repr_eq_if]
  by_cases sign : 0 ≤ n
  · have spelled : Spells (toString n.toNat).toList (.number n.toNat) :=
      spells_natural (by omega)
    rw [if_pos sign, ← Nat.toString_eq_repr]
    rwa [Int.toNat_of_nonneg sign] at spelled
  · have spelled : Spells ('-' :: (toString (-n).toNat).toList) (.number (-(-n).toNat)) :=
      spells_negative (by omega)
    rw [if_neg sign, String.toList_append, ← Nat.toString_eq_repr]
    rwa [Int.toNat_of_nonneg (by omega), Int.neg_neg] at spelled

/-! ### Lines -/

/-- The text stands on one line and is read as the tokens. -/
structure SpellsLine (cs : List Char) (ts : List Token) : Prop where
  unbroken : Unbroken cs
  reads : tokens cs = .ok ts

/-- Words with a space before each. -/
def spaced (words : List (List Char)) : List Char := words.flatMap (' ' :: ·)

@[simp] theorem spaced_nil : spaced [] = [] := rfl

@[simp] theorem spaced_cons (w : List Char) (words : List (List Char)) :
    spaced (w :: words) = ' ' :: (w ++ spaced words) := rfl

theorem stops_spaced (words : List (List Char)) : Stops (spaced words) := by
  cases words with
  | nil => exact .inl rfl
  | cons w words => exact .inr ⟨w ++ spaced words, by simp⟩

theorem spellsLine_spaced {words : List (List Char)} {ts : List Token}
    (spelled : List.Forall₂ Spells words ts) : SpellsLine (spaced words) ts := by
  induction spelled with
  | nil => exact ⟨by simp [Unbroken], by rw [spaced_nil, tokens]⟩
  | @cons w t words ts first _ ih =>
    constructor
    · intro c member
      rw [spaced_cons, List.mem_cons, List.mem_append] at member
      rcases member with rfl | own | later
      · decide
      · exact first.unbroken c own
      · exact ih.unbroken c later
    · rw [spaced_cons, tokens_space, first.reads _ (stops_spaced words), ih.reads]
      rfl

theorem spellsLine_cons {w : List Char} {t : Token} {words : List (List Char)} {ts : List Token}
    (first : Spells w t) (others : List.Forall₂ Spells words ts) :
    SpellsLine (w ++ spaced words) (t :: ts) := by
  have rest := spellsLine_spaced others
  constructor
  · intro c member
    rcases List.mem_append.mp member with own | later
    · exact first.unbroken c own
    · exact rest.unbroken c later
  · rw [first.reads _ (stops_spaced words), rest.reads]
    rfl

/-- A line with a word and more words after it. -/
def wordsLine (first : String) (words : List String) : String :=
  first ++ String.join (words.map (" " ++ ·))

theorem toList_wordsLine (first : String) (words : List String) :
    (wordsLine first words).toList = first.toList ++ spaced (words.map String.toList) := by
  rw [wordsLine, String.toList_append, String.toList_join, List.flatMap_map, spaced,
    List.flatMap_map]
  congr 1
  apply List.flatMap_congr
  intro w _
  rw [String.toList_append]
  rfl

theorem spellsLine_wordsLine {first : String} {t : Token} {words : List String} {ts : List Token}
    (head : Spells first.toList t) (others : List.Forall₂ (fun w t => Spells w.toList t) words ts) :
    SpellsLine (wordsLine first words).toList (t :: ts) := by
  rw [toList_wordsLine]
  exact spellsLine_cons head (List.forall₂_map_left_iff.mpr others)

theorem dropReturn_of_unbroken {cs : List Char} (unbroken : Unbroken cs) : dropReturn cs = cs := by
  unfold dropReturn
  split
  · next more same =>
    have member : '\r' ∈ cs := by
      rw [← List.mem_reverse, same]
      exact List.mem_cons_self
    exact absurd rfl (unbroken _ member).2
  · rfl

theorem linesFrom_append {cs : List Char} (unbroken : Unbroken cs) (start rest : List Char) :
    linesFrom start (cs ++ '\n' :: rest) =
      dropReturn (start.reverse ++ cs) :: linesFrom [] rest := by
  induction cs generalizing start with
  | nil => rw [List.nil_append, linesFrom, if_pos (by decide), List.append_nil]
  | cons c cs ih =>
    have here := (unbroken c List.mem_cons_self).1
    have later : Unbroken cs := fun d member => unbroken d (List.mem_cons_of_mem _ member)
    rw [List.cons_append, linesFrom, if_neg (by simpa using here), ih later]
    simp

theorem lines_flatMap {texts : List (List Char)} (unbroken : ∀ cs ∈ texts, Unbroken cs) :
    lines (texts.flatMap (· ++ ['\n'])) = texts := by
  unfold lines
  induction texts with
  | nil => rfl
  | cons cs texts ih =>
    have here := unbroken cs List.mem_cons_self
    rw [List.flatMap_cons, List.append_assoc, List.singleton_append, linesFrom_append here,
      List.reverse_nil, List.nil_append, dropReturn_of_unbroken here,
      ih fun ds member => unbroken ds (List.mem_cons_of_mem _ member)]

end Listing

end CommandVM
