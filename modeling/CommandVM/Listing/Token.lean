import CommandVM.Builder
import CommandVM.Text.Blank
import CommandVM.Text.Integer

/-!
# Tokens of a listing

A line of a listing consists of words, numbers and strings in double quotes, up to a semicolon.
`quoted` writes a string that reads back as it is.
-/

namespace CommandVM.Listing

inductive Problem where
  | unknownOpcode (token : String)
  | unknownDirective (token : String)
  | missingArgument (name : String) (expected : Nat)
  | invalidNumber (token : String)
  | unexpectedToken (token : String)
  | unterminatedString
  | badEscape (escape : String)
  | duplicateLabel (name : String)
  | undefinedLabel (name : String)
  | build (error : BuildError)
deriving Repr, DecidableEq

def Problem.message : Problem → String
  | .unknownOpcode token => s!"unknown opcode '{token}'"
  | .unknownDirective token => s!"unknown directive '{token}'"
  | .missingArgument name expected => s!"{name} expects {expected} argument(s)"
  | .invalidNumber token => s!"invalid number '{token}'"
  | .unexpectedToken token => s!"unexpected token '{token}'"
  | .unterminatedString => "unterminated string"
  | .badEscape escape => s!"bad escape '{escape}'"
  | .duplicateLabel name => s!"label '{name}' already defined"
  | .undefinedLabel name => s!"label '{name}' is never defined"
  | .build error => error.message

structure Error where
  line : Nat
  problem : Problem
deriving Repr, DecidableEq

def Error.message (e : Error) : String :=
  "line " ++ toString e.line ++ ": " ++ e.problem.message

inductive Token where
  /-- A mnemonic, a directive, a label, a name or a pair. -/
  | word (chars : String)
  | number (value : Int)
  | str (chars : String)
deriving Repr, DecidableEq

/-! ### Strings -/

def quotedChar (c : Char) : List Char :=
  if c == '"' then ['\\', '"']
  else if c == '\\' then ['\\', '\\']
  else if c == '\n' then ['\\', 'n']
  else if c == '\t' then ['\\', 't']
  else if c == '\r' then ['\\', 'r']
  else if Text.isControl c then '\\' :: 'u' :: '\x7b' :: Nat.toDigits 16 c.toNat ++ ['\x7d']
  else [c]

/-- A string in double quotes that reads back as it is. -/
def quotedChars (cs : List Char) : List Char := '"' :: cs.flatMap quotedChar ++ ['"']

def quoted (s : String) : String := String.ofList (quotedChars s.toList)

def namedEscape? : Char → Option Char
  | 'n' => some '\n'
  | 't' => some '\t'
  | 'r' => some '\r'
  | '\\' => some '\\'
  | '"' => some '"'
  | _ => none

/-- A code point in braces: one to six hexadecimal digits. -/
def codePoint : List Char → Except Problem (Char × List Char)
  | '\x7b' :: cs =>
    let digits := (cs.take 6).takeWhile (Text.isDigit 16)
    let start := '\\' :: 'u' :: '\x7b' :: digits
    match cs.drop digits.length with
    | '\x7d' :: rest => match (Text.natural? 16 digits).bind Text.char? with
      | some c => .ok (c, rest)
      | none => .error (.badEscape (String.ofList (start ++ ['\x7d'])))
    | _ => .error (.badEscape (String.ofList start))
  | _ => .error (.badEscape "\\u")

def escape : List Char → Except Problem (Char × List Char)
  | [] => .error .unterminatedString
  | c :: cs => match namedEscape? c with
    | some named => .ok (named, cs)
    | none => if c == 'u' then codePoint cs else .error (.badEscape (String.ofList ['\\', c]))

theorem codePoint_rest_le {cs rest : List Char} {c : Char} (h : codePoint cs = .ok (c, rest)) :
    rest.length ≤ cs.length := by
  unfold codePoint at h
  split at h
  · next ds =>
    dsimp only at h
    split at h
    · next r heq =>
      split at h
      · simp only [Except.ok.injEq, Prod.mk.injEq] at h
        have := congrArg List.length heq
        simp only [List.length_drop, List.length_cons] at this
        simp only [← h.2, List.length_cons]; omega
      · simp at h
    · simp at h
  · simp at h

theorem escape_rest_le {cs rest : List Char} {c : Char} (h : escape cs = .ok (c, rest)) :
    rest.length ≤ cs.length := by
  unfold escape at h
  split at h
  · simp at h
  · next d ds =>
    split at h
    · simp only [Except.ok.injEq, Prod.mk.injEq] at h
      simp [← h.2]
    · split at h
      · have := codePoint_rest_le h
        simp only [List.length_cons]; omega
      · simp at h

/-- The text up to the closing quote, with escapes replaced, and what follows the quote. -/
def stringText (cs : List Char) : Except Problem (List Char × List Char) :=
  match cs with
  | [] => .error .unterminatedString
  | c :: cs =>
    if c == '"' then .ok ([], cs)
    else if c == '\\' then
      match _ : escape cs with
      | .error e => .error e
      | .ok (d, rest) => match stringText rest with
        | .error e => .error e
        | .ok (text, rest) => .ok (d :: text, rest)
    else match stringText cs with
      | .error e => .error e
      | .ok (text, rest) => .ok (c :: text, rest)
termination_by cs.length
decreasing_by
  · rename_i read
    have := escape_rest_le read
    simp only [List.length_cons]; omega
  · simp

theorem stringText_rest_lt {cs text rest : List Char} (h : stringText cs = .ok (text, rest)) :
    rest.length < cs.length := by
  fun_induction stringText cs generalizing text rest with
  | case1 => simp at h
  | case2 => simp_all
  | case3 => simp at h
  | case4 => simp at h
  | case5 c cs _ _ d rest' read t r inner ih =>
    simp only [Except.ok.injEq, Prod.mk.injEq] at h
    have := ih inner
    have := escape_rest_le read
    simp only [← h.2, List.length_cons]; omega
  | case6 => simp at h
  | case7 c cs _ _ t r inner ih =>
    simp only [Except.ok.injEq, Prod.mk.injEq] at h
    have := ih inner
    simp only [← h.2, List.length_cons]; omega

/-! ### Words and numbers -/

def unsignedPart : List Char → List Char
  | '-' :: cs => cs
  | '+' :: cs => cs
  | cs => cs

/-- The magnitude of a number: decimal, or hexadecimal after `0x`. -/
def magnitude? : List Char → Option Int
  | '0' :: 'x' :: cs | '0' :: 'X' :: cs => Text.int64? 16 cs
  | cs => Text.int64? 10 cs

/-- The token of a word; it is a number when a digit stands after its sign. Like the magnitude, what
the sign makes of it has 64 bits. -/
def wordToken (cs : List Char) : Except Problem Token :=
  let body := unsignedPart cs
  if (body.head?.map (Text.isDigit 10)).getD false then
    match magnitude? body with
    | some n => .ok (.number (if cs.head? == some '-' then (-Int64.ofInt n).toInt else n))
    | none => .error (.invalidNumber (String.ofList cs))
  else .ok (.word (String.ofList cs))

def isWordChar (c : Char) : Bool := !Text.isBlank c && c != ';' && c != '"'

/-! ### Lines -/

def tokens (cs : List Char) : Except Problem (List Token) :=
  match cs with
  | [] => .ok []
  | c :: cs =>
    if Text.isBlank c then tokens cs
    else if c == ';' then .ok []
    else if c == '"' then
      match _ : stringText cs with
      | .error e => .error e
      | .ok (text, rest) => match tokens rest with
        | .error e => .error e
        | .ok rest => .ok (.str (String.ofList text) :: rest)
    else match wordToken (c :: cs.takeWhile isWordChar) with
      | .error e => .error e
      | .ok token => match tokens (cs.dropWhile isWordChar) with
        | .error e => .error e
        | .ok rest => .ok (token :: rest)
termination_by cs.length
decreasing_by
  · simp
  · rename_i read
    have := stringText_rest_lt read
    simp only [List.length_cons]; omega
  · have := (List.dropWhile_sublist isWordChar (l := cs)).length_le
    simp only [List.length_cons]; omega

def Token.text : Token → String
  | .word w => w
  | .number n => toString n
  | .str s => quoted s

end CommandVM.Listing
