import CommandVM.ListText.Quote

/-!
# Written lists split back

An element is written in one of two ways: in braces, when its own braces are balanced, or with a
backslash before each special character, which changes nothing in an element that has none. Either
text is read back as one element whatever stands behind it, if that starts with a space.
-/

namespace CommandVM.ListText

/-- Nothing more belongs to an element that stands before this text. -/
def Ends (rest : List Char) : Prop := ∀ c ∈ rest.head?, isSpace c = true

theorem ends_nil : Ends [] := by simp [Ends]

theorem ends_space (rest : List Char) : Ends (' ' :: rest) := by
  intro c first
  cases first
  rfl

theorem closed_of_ends {stray : String → Error} {text rest : List Char} (ends : Ends rest) :
    closed stray text rest = .ok (text, rest) := by
  cases rest with
  | nil => rfl
  | cons c cs => simp [closed, ends c rfl]

/-! ### Elements in braces -/

theorem bracedText?_cons {c : Char} (depth : Nat) (cs : List Char) (plain : c ≠ '\\')
    (noOpen : c ≠ '\x7b') (noClose : c ≠ '\x7d') :
    bracedText? depth (c :: cs) =
      (bracedText? depth cs).map fun (text, rest) => (c :: text, rest) := by
  rw [bracedText?.eq_def]
  split <;> simp_all

/-- The closing brace of an element is the first one that its own braces leave over. -/
theorem bracedText?_of_isBalanced {depth : Nat} {cs : List Char} (rest : List Char)
    (balanced : isBalanced depth cs = true) :
    bracedText? depth (cs ++ '\x7d' :: rest) = some (cs, rest) := by
  fun_induction isBalanced depth cs with
  | case1 depth =>
    obtain rfl : depth = 0 := by simpa using balanced
    simp [bracedText?]
  | case2 => cases balanced
  | case3 depth c cs ih => simp [bracedText?, ih balanced]
  | case4 depth cs ih => simp [bracedText?, ih balanced]
  | case5 => cases balanced
  | case6 depth cs ih => simp [bracedText?, ih balanced]
  | case7 depth c cs last hides opens closesNone closes ih =>
    have plain : c ≠ '\\' := by
      rintro rfl
      cases cs with
      | nil => exact last rfl rfl
      | cons d ds => exact hides d ds rfl rfl
    have noClose : c ≠ '\x7d' := by
      rintro rfl
      cases depth with
      | zero => exact closesNone rfl rfl
      | succ depth => exact closes depth rfl rfl
    rw [List.cons_append, bracedText?_cons depth _ plain opens noClose, ih balanced]
    rfl

theorem element_braced {cs : List Char} (rest : List Char) (balanced : isBalanced 0 cs = true)
    (ends : Ends rest) : element ('\x7b' :: cs ++ '\x7d' :: rest) = .ok (cs, rest) := by
  simp only [List.cons_append, element, bracedText?_of_isBalanced rest balanced]
  exact closed_of_ends ends

/-! ### Elements with backslashes -/

theorem isSpace_of_not_isSpecial {c : Char} (plain : isSpecial c = false) : isSpace c = false := by
  simp only [isSpecial, Bool.or_eq_false_iff] at plain
  simp [plain]

theorem ne_of_not_isSpecial {c d : Char} (plain : isSpecial c = false) (special : isSpecial d = true) :
    c ≠ d := by
  rintro rfl
  simp [plain] at special

theorem escaped_of_not_isSpecial {c : Char} (plain : isSpecial c = false) : escaped c = [c] := by
  have differs : ∀ d, isSpecial d = true → c ≠ d := fun d => ne_of_not_isSpecial plain
  simp [escaped, plain, differs '\n' rfl, differs '\t' rfl, differs '\r' rfl, differs '\x0b' rfl,
    differs '\x0c' rfl]

/-- A special character is written as a backslash with itself or with its letter. -/
theorem escaped_of_isSpecial {c : Char} (special : isSpecial c = true) :
    ∃ d, escaped c = ['\\', d] ∧ ∀ cs, escape (d :: cs) = (c, cs) := by
  simp only [isSpecial, isSpace, Bool.or_eq_true, beq_iff_eq] at special
  rcases special with ((((((((((((rfl | rfl) | rfl) | rfl) | rfl) | rfl) | rfl) | rfl) | rfl) |
    rfl) | rfl) | rfl) | rfl) | rfl <;> exact ⟨_, rfl, fun cs => rfl⟩

theorem bareText_escaped (c : Char) (cs : List Char) :
    bareText (escaped c ++ cs) = (c :: (bareText cs).1, (bareText cs).2) := by
  by_cases special : isSpecial c = true
  · obtain ⟨d, written, back⟩ := escaped_of_isSpecial special
    rw [written, List.cons_append, bareText]
    simp [isSpace, back]
  · have plain := Bool.eq_false_iff.mpr special
    rw [escaped_of_not_isSpecial plain, List.singleton_append, bareText]
    simp [isSpace_of_not_isSpecial plain, ne_of_not_isSpecial plain (d := '\\') rfl]

theorem bareText_of_ends {rest : List Char} (ends : Ends rest) : bareText rest = ([], rest) := by
  cases rest with
  | nil => simp [bareText]
  | cons c cs => simp [bareText, ends c rfl]

theorem bareText_flatMap_escaped (cs : List Char) {rest : List Char} (ends : Ends rest) :
    bareText (cs.flatMap escaped ++ rest) = (cs, rest) := by
  induction cs with
  | nil => exact bareText_of_ends ends
  | cons c cs ih => rw [List.flatMap_cons, List.append_assoc, bareText_escaped, ih]

/-- An escaped element starts with nothing that opens an element in braces or quotes. -/
theorem head_escaped (c : Char) (cs : List Char) :
    ∃ d ds, escaped c ++ cs = d :: ds ∧ isSpace d = false ∧ d ≠ '\x7b' ∧ d ≠ '"' := by
  by_cases special : isSpecial c = true
  · obtain ⟨d, written, _⟩ := escaped_of_isSpecial special
    exact ⟨'\\', d :: cs, by rw [written]; rfl, by decide⟩
  · have plain := Bool.eq_false_iff.mpr special
    refine ⟨c, cs, by rw [escaped_of_not_isSpecial plain]; rfl, isSpace_of_not_isSpecial plain, ?_⟩
    exact ⟨ne_of_not_isSpecial plain rfl, ne_of_not_isSpecial plain rfl⟩

theorem element_bare {c : Char} (cs : List Char) (noBrace : c ≠ '\x7b') (noQuote : c ≠ '"') :
    element (c :: cs) = .ok (bareText (c :: cs)) := by
  rw [element.eq_def]
  split <;> simp_all

theorem element_flatMap_escaped (c : Char) (cs : List Char) {rest : List Char} (ends : Ends rest) :
    element ((c :: cs).flatMap escaped ++ rest) = .ok (c :: cs, rest) := by
  obtain ⟨d, ds, starts, _, noBrace, noQuote⟩ := head_escaped c (cs.flatMap escaped ++ rest)
  have whole : (c :: cs).flatMap escaped ++ rest = d :: ds := by
    rw [List.flatMap_cons, List.append_assoc, starts]
  rw [whole, element_bare ds noBrace noQuote, ← whole, bareText_flatMap_escaped _ ends]

/-! ### Written elements -/

theorem flatMap_escaped_of_plain {cs : List Char} (plain : cs.any isSpecial = false) :
    cs.flatMap escaped = cs := by
  induction cs with
  | nil => rfl
  | cons c cs ih =>
    simp only [List.any_cons, Bool.or_eq_false_iff] at plain
    rw [List.flatMap_cons, escaped_of_not_isSpecial plain.1, ih plain.2]
    rfl

theorem quoteChars_cases (e : List Char) :
    (isBalanced 0 e = true ∧ quoteChars e = '\x7b' :: e ++ ['\x7d']) ∨
      ∃ c cs, e = c :: cs ∧ quoteChars e = e.flatMap escaped := by
  cases e with
  | nil => exact .inl ⟨rfl, rfl⟩
  | cons c cs =>
    rw [quoteChars]
    split
    · next bare =>
      simp only [Bool.and_eq_true, Bool.not_eq_true'] at bare
      exact .inr ⟨c, cs, rfl, (flatMap_escaped_of_plain bare.2).symm⟩
    · split
      · next balanced => exact .inl ⟨balanced, rfl⟩
      · exact .inr ⟨c, cs, rfl, rfl⟩

/-- A written element is read back, and nothing of what follows it. -/
theorem element_quoteChars (e : List Char) {rest : List Char} (ends : Ends rest) :
    element (quoteChars e ++ rest) = .ok (e, rest) := by
  rcases quoteChars_cases e with ⟨balanced, written⟩ | ⟨c, cs, rfl, written⟩
  · rw [written, List.append_assoc]
    exact element_braced rest balanced ends
  · rw [written]
    exact element_flatMap_escaped c cs ends

theorem head_quoteChars (e rest : List Char) :
    ∃ d ds, quoteChars e ++ rest = d :: ds ∧ isSpace d = false := by
  rcases quoteChars_cases e with ⟨_, written⟩ | ⟨c, cs, rfl, written⟩
  · exact ⟨'\x7b', e ++ ['\x7d'] ++ rest, by rw [written]; rfl, rfl⟩
  · obtain ⟨d, ds, starts, noSpace, _⟩ := head_escaped c (cs.flatMap escaped ++ rest)
    exact ⟨d, ds, by rw [written, List.flatMap_cons, List.append_assoc, starts], noSpace⟩

/-! ### Written lists -/

theorem splitChars_quoteChars (e : List Char) {rest : List Char} (ends : Ends rest) :
    splitChars (quoteChars e ++ rest) = (splitChars rest).map (e :: ·) := by
  obtain ⟨d, ds, starts, noSpace⟩ := head_quoteChars e rest
  have read := element_quoteChars e ends
  rw [starts] at read ⊢
  have kept : (d :: ds).dropWhile isSpace = d :: ds := by simp [noSpace]
  rw [splitChars]
  split
  · next none => simp [noSpace] at none
  · next c cs found =>
    simp only [kept, List.cons.injEq] at found
    obtain ⟨rfl, rfl⟩ := found
    split
    · next e failed => simp [read] at failed
    · next text after elementRead =>
      rw [read] at elementRead
      cases elementRead
      cases splitChars rest <;> rfl

theorem splitChars_space (cs : List Char) : splitChars (' ' :: cs) = splitChars cs := by
  have dropped : (' ' :: cs).dropWhile isSpace = cs.dropWhile isSpace := rfl
  rw [splitChars.eq_def, splitChars.eq_def cs, dropped]

theorem splitChars_joinChars (es : List (List Char)) : splitChars (joinChars es) = .ok es := by
  fun_induction joinChars es with
  | case1 => simp [splitChars]
  | case2 e =>
    have single := splitChars_quoteChars e ends_nil
    rw [List.append_nil] at single
    rw [single]
    simp [splitChars, Except.map]
  | case3 e es more ih =>
    rw [splitChars_quoteChars e (ends_space _), splitChars_space, ih]
    rfl

/-- Splitting the text of a list gives back its elements, whatever they hold. -/
theorem split_join (elements : List String) : split (join elements) = .ok elements := by
  have back := splitChars_joinChars (elements.map String.toList)
  simp [split, join, back, Except.map, Function.comp_def]

end CommandVM.ListText
