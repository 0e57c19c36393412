import CommandVM.Proofs.Listing.Tokens

/-!
# Strings among other tokens

A string in double quotes is one token of its line, whatever its characters are. It has no line end,
so that it stays on the line; it takes nothing from the word before it and nothing from what follows
its closing quote.
-/

namespace CommandVM.Listing

/-- What stands before a string on its line: nothing, or a word and a space. -/
def lead : Option (List Char) → List Char
  | none => []
  | some word => word ++ [' ']

/-- The tokens before a string: none, or that of the word. -/
def leadTokens : Option (List Char) → Except Problem (List Token)
  | none => .ok []
  | some word => (wordToken word).map ([·])

variable {first : Option (List Char)}

theorem tokens_lead_append (words : ∀ w ∈ first, IsWord w) (rest : List Char) :
    tokens (lead first ++ rest) =
      (leadTokens first).bind fun before => (tokens rest).map (before ++ ·) := by
  cases first with
  | none =>
    show tokens rest = (tokens rest).map id
    cases tokens rest <;> rfl
  | some w =>
    -- The space belongs to neither side: it ends the word and is skipped before the rest.
    have spaced : Stops (' ' :: rest) := .inr ⟨rest, rfl⟩
    rw [lead, List.append_assoc, List.singleton_append, tokens_word_append (words w rfl) spaced,
      tokens_space, leadTokens]
    cases wordToken w <;> rfl

theorem tokens_lead_quoted (words : ∀ w ∈ first, IsWord w) (s : String) (rest : List Char) :
    tokens (lead first ++ (quoted s).toList ++ rest) = do
      let before ← leadTokens first
      let after ← tokens rest
      return before ++ .str s :: after := by
  rw [List.append_assoc, tokens_lead_append words, tokens_quoted_append]
  cases leadTokens first with
  | error e => rfl
  | ok before => cases tokens rest <;> rfl

/-- A string in double quotes has no line end, and between a word and any other text it is read as
itself: the line has the token of the word, the string and the tokens of the other text, and it
fails only where one of these two fails. -/
theorem quoted_strings_stand_alone (s : String) (first : Option (List Char))
    (words : ∀ w ∈ first, IsWord w) (rest : List Char) :
    Unbroken (quoted s).toList ∧
      (tokens (lead first ++ (quoted s).toList ++ rest) = do
        let before ← leadTokens first
        let after ← tokens rest
        return before ++ .str s :: after) ∧
      ((∃ e, tokens (lead first ++ (quoted s).toList ++ rest) = .error e) ↔
        (∃ e, leadTokens first = .error e) ∨ ∃ e, tokens rest = .error e) := by
  have read := tokens_lead_quoted words s rest
  refine ⟨unbroken_quoted s, read, ?_⟩
  rw [read]
  cases leadTokens first with
  | error e => exact iff_of_true ⟨e, rfl⟩ (.inl ⟨e, rfl⟩)
  | ok before =>
    cases tokens rest with
    | error e => exact iff_of_true ⟨e, rfl⟩ (.inr ⟨e, rfl⟩)
    | ok after => exact iff_of_false nofun (by rintro (⟨e, ⟨⟩⟩ | ⟨e, ⟨⟩⟩))

/-- A quote, a backslash, a semicolon, a line end and a bell in a string, between a mnemonic and a
comment with an open quote. -/
theorem awkward_string_stands_alone :
    IsWord "PUSH1".toList ∧
      tokens ("PUSH1 ".toList ++ (quoted "a;\"b\\\n\x07").toList ++ " ; \"c".toList) =
        .ok [.word "PUSH1", .str "a;\"b\\\n\x07"] := by
  have word : IsWord "PUSH1".toList := ⟨by decide, List.all_eq_true.mp (by decide)⟩
  have comment : tokens " ; \"c".toList = .ok [] := by
    show tokens (' ' :: "; \"c".toList) = .ok []
    rw [tokens_space]
    exact tokens.eq_def _
  have read := (quoted_strings_stand_alone "a;\"b\\\n\x07" (some "PUSH1".toList)
    (fun w member => by cases member; exact word) " ; \"c".toList).2.1
  rw [comment] at read
  exact ⟨word, read⟩

end CommandVM.Listing
