import CommandVM.Text.Integer

/-!
# Splitting list text

A list is written as elements with spaces between them. An element stands in braces, which keep its
text as it is, in double quotes, or bare; in the last two a backslash starts an escape.
-/

namespace CommandVM.ListText

inductive Error where
  | unmatchedBrace
  | unmatchedQuote
  | braceFollowedBy (text : String)
  | quoteFollowedBy (text : String)
  | badIndex (spec : String)
deriving Repr, DecidableEq

def Error.message : Error → String
  | .unmatchedBrace => "unmatched open brace in list"
  | .unmatchedQuote => "unmatched open quote in list"
  | .braceFollowedBy text => s!"list element in braces followed by \"{text}\" instead of space"
  | .quoteFollowedBy text => s!"list element in quotes followed by \"{text}\" instead of space"
  | .badIndex spec => s!"bad index \"{spec}\": must be integer or end?-integer?"

def isSpace (c : Char) : Bool :=
  c == ' ' || c == '\t' || c == '\n' || c == '\r' || c == '\x0b' || c == '\x0c'

/-! ### Escapes -/

/-- The character that a letter after a backslash stands for. -/
def namedEscape? : Char → Option Char
  | 'a' => some '\x07'
  | 'b' => some '\x08'
  | 'f' => some '\x0c'
  | 'n' => some '\n'
  | 'r' => some '\r'
  | 't' => some '\t'
  | 'v' => some '\x0b'
  | _ => none

def leadingDigits (radix limit : Nat) (cs : List Char) : List Char :=
  (cs.take limit).takeWhile (Text.isDigit radix)

/-- A letter followed by at most `limit` hexadecimal digits of a character; the letter itself when
they name none. -/
def hexEscape (letter : Char) (limit : Nat) (cs : List Char) : Char × List Char :=
  let digits := leadingDigits 16 limit cs
  match (Text.natural? 16 digits).bind Text.char? with
  | some c => (c, cs.drop digits.length)
  | none => (letter, cs)

/-- At most three octal digits of a code below 256, starting with `digit`. -/
def octalEscape (digit : Char) (cs : List Char) : Char × List Char :=
  let more := leadingDigits 8 2 cs
  let code := (Text.natural? 8 (digit :: more)).getD 0
  (Char.ofNat (code % 256), cs.drop more.length)

/-- The character for the text after a backslash, and what follows it. A line end takes the blanks
after it along; a backslash at the end stands for itself. -/
def escape : List Char → Char × List Char
  | [] => ('\\', [])
  | c :: cs =>
    match namedEscape? c with
    | some named => (named, cs)
    | none =>
      if c == 'x' then hexEscape c 2 cs
      else if c == 'u' then hexEscape c 4 cs
      else if Text.isDigit 8 c then octalEscape c cs
      else if c == '\n' then (' ', cs.dropWhile fun d => d == ' ' || d == '\t')
      else (c, cs)

theorem escape_rest_le (cs : List Char) : (escape cs).2.length ≤ cs.length := by
  cases cs with
  | nil => simp [escape]
  | cons c cs =>
    have shrink : (cs.dropWhile fun d => d == ' ' || d == '\t').length ≤ cs.length :=
      (List.dropWhile_sublist _).length_le
    simp only [escape]
    split
    · simp
    · split
      · simp only [hexEscape]; split <;> simp; omega
      · split
        · simp only [hexEscape]; split <;> simp; omega
        · split
          · simp [octalEscape]; omega
          · split <;> simp; omega

/-! ### Elements -/

/-- The text up to the brace that closes `depth + 1` open ones, and what follows that brace. A
backslash hides the character after it. -/
def bracedText? : Nat → List Char → Option (List Char × List Char)
  | _, [] => none
  | _, ['\\'] => none
  | depth, '\\' :: c :: cs =>
    (bracedText? depth cs).map fun (text, rest) => ('\\' :: c :: text, rest)
  | depth, '\x7b' :: cs =>
    (bracedText? (depth + 1) cs).map fun (text, rest) => ('\x7b' :: text, rest)
  | 0, '\x7d' :: cs => some ([], cs)
  | depth + 1, '\x7d' :: cs => (bracedText? depth cs).map fun (text, rest) => ('\x7d' :: text, rest)
  | depth, c :: cs => (bracedText? depth cs).map fun (text, rest) => (c :: text, rest)

/-- The text up to the closing quote, with escapes replaced, and what follows the quote. -/
def quotedText? : List Char → Option (List Char × List Char)
  | [] => none
  | c :: cs =>
    if c == '"' then some ([], cs)
    else if c == '\\' then
      (quotedText? (escape cs).2).map fun (text, rest) => ((escape cs).1 :: text, rest)
    else (quotedText? cs).map fun (text, rest) => (c :: text, rest)
termination_by cs => cs.length
decreasing_by all_goals have := escape_rest_le cs; simp only [List.length_cons]; omega

/-- The text up to the next space, with escapes replaced, and what follows. -/
def bareText : List Char → List Char × List Char
  | [] => ([], [])
  | c :: cs =>
    if isSpace c then ([], c :: cs)
    else if c == '\\' then
      let (text, rest) := bareText (escape cs).2
      ((escape cs).1 :: text, rest)
    else
      let (text, rest) := bareText cs
      (c :: text, rest)
termination_by cs => cs.length
decreasing_by all_goals have := escape_rest_le cs; simp only [List.length_cons]; omega

def strayText (cs : List Char) : String := String.ofList ((cs.takeWhile (!isSpace ·)).take 20)

/-- A closed element, which must be followed by a space or by the end. -/
def closed (stray : String → Error) (text rest : List Char) :
    Except Error (List Char × List Char) :=
  match rest with
  | [] => .ok (text, rest)
  | c :: _ => if isSpace c then .ok (text, rest) else .error (stray (strayText rest))

def element : List Char → Except Error (List Char × List Char)
  | '\x7b' :: cs => match bracedText? 0 cs with
    | some (text, rest) => closed .braceFollowedBy text rest
    | none => .error .unmatchedBrace
  | '"' :: cs => match quotedText? cs with
    | some (text, rest) => closed .quoteFollowedBy text rest
    | none => .error .unmatchedQuote
  | cs => .ok (bareText cs)

/-! ### What an element leaves is shorter -/

theorem bracedText?_rest_lt {depth : Nat} {cs text rest : List Char}
    (h : bracedText? depth cs = some (text, rest)) : rest.length < cs.length := by
  fun_induction bracedText? depth cs generalizing text rest with
  | case1 => simp at h
  | case2 => simp at h
  | case3 depth c cs ih =>
    obtain ⟨⟨t, r⟩, ht, he⟩ := Option.map_eq_some_iff.1 h
    simp only [Prod.mk.injEq] at he
    have := ih ht
    simp only [← he.2, List.length_cons]; omega
  | case4 depth cs ih =>
    obtain ⟨⟨t, r⟩, ht, he⟩ := Option.map_eq_some_iff.1 h
    simp only [Prod.mk.injEq] at he
    have := ih ht
    simp only [← he.2, List.length_cons]; omega
  | case5 cs => simp_all
  | case6 depth cs ih =>
    obtain ⟨⟨t, r⟩, ht, he⟩ := Option.map_eq_some_iff.1 h
    simp only [Prod.mk.injEq] at he
    have := ih ht
    simp only [← he.2, List.length_cons]; omega
  | case7 =>
    rename_i ih
    obtain ⟨⟨t, r⟩, ht, he⟩ := Option.map_eq_some_iff.1 h
    simp only [Prod.mk.injEq] at he
    have := ih ht
    simp only [← he.2, List.length_cons]; omega

theorem quotedText?_rest_lt {cs text rest : List Char}
    (h : quotedText? cs = some (text, rest)) : rest.length < cs.length := by
  fun_induction quotedText? cs generalizing text rest with
  | case1 => simp at h
  | case2 => simp_all
  | case3 c cs _ _ ih =>
    obtain ⟨⟨t, r⟩, ht, he⟩ := Option.map_eq_some_iff.1 h
    simp only [Prod.mk.injEq] at he
    have := ih ht
    have := escape_rest_le cs
    simp only [← he.2, List.length_cons]; omega
  | case4 c cs _ _ ih =>
    obtain ⟨⟨t, r⟩, ht, he⟩ := Option.map_eq_some_iff.1 h
    simp only [Prod.mk.injEq] at he
    have := ih ht
    simp only [← he.2, List.length_cons]; omega

theorem bareText_rest_le (cs : List Char) : (bareText cs).2.length ≤ cs.length := by
  fun_induction bareText cs with
  | case1 => simp
  | case2 => simp
  | case3 c cs _ _ text rest heq ih =>
    have := escape_rest_le cs
    rw [heq] at ih
    simp only [List.length_cons] at ih ⊢; omega
  | case4 c cs _ _ text rest heq ih =>
    rw [heq] at ih
    simp only [List.length_cons] at ih ⊢; omega

theorem closed_eq_ok {stray : String → Error} {text rest t r : List Char}
    (h : closed stray text rest = .ok (t, r)) : t = text ∧ r = rest := by
  unfold closed at h
  split at h
  · simpa [eq_comm] using h
  · split at h
    · simpa [eq_comm] using h
    · simp at h

theorem bareText_rest_lt {c : Char} {cs : List Char} (h : isSpace c = false) :
    (bareText (c :: cs)).2.length < (c :: cs).length := by
  have step := bareText_rest_le cs
  have jump := bareText_rest_le (escape cs).2
  have back := escape_rest_le cs
  rw [bareText]
  simp only [h, Bool.false_eq_true, if_false]
  split <;> simp only [List.length_cons] <;> omega

theorem element_rest_lt {c : Char} {cs text rest : List Char} (h : isSpace c = false)
    (read : element (c :: cs) = .ok (text, rest)) : rest.length < (c :: cs).length := by
  unfold element at read
  split at read
  · next ds heq =>
    split at read
    · next t r hb =>
      obtain ⟨_, rfl⟩ := closed_eq_ok read
      have := bracedText?_rest_lt hb
      rw [heq, List.length_cons]; omega
    · simp at read
  · next ds heq =>
    split at read
    · next t r hq =>
      obtain ⟨_, rfl⟩ := closed_eq_ok read
      have := quotedText?_rest_lt hq
      rw [heq, List.length_cons]; omega
    · simp at read
  · have := @bareText_rest_lt c cs h
    simp only [Except.ok.injEq] at read
    rwa [read] at this

/-! ### Lists -/

theorem dropWhile_cons_false {p : Char → Bool} {cs ds : List Char} {c : Char}
    (h : cs.dropWhile p = c :: ds) : p c = false ∧ (c :: ds).length ≤ cs.length := by
  refine ⟨?_, h ▸ (List.dropWhile_sublist p).length_le⟩
  have := List.head?_dropWhile_not p cs
  rw [h] at this
  simpa using this

def splitChars (cs : List Char) : Except Error (List (List Char)) :=
  match _ : cs.dropWhile isSpace with
  | [] => .ok []
  | c :: ds => match _ : element (c :: ds) with
    | .error e => .error e
    | .ok (text, rest) => match splitChars rest with
      | .error e => .error e
      | .ok texts => .ok (text :: texts)
termination_by cs.length
decreasing_by
  rename_i start read
  have found := dropWhile_cons_false start
  have := element_rest_lt found.1 read
  omega

def split (text : String) : Except Error (List String) :=
  (splitChars text.toList).map fun texts => texts.map String.ofList

end CommandVM.ListText
