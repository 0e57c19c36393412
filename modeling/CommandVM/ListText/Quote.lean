import CommandVM.ListText.Split

/-!
# Writing list text

Each element is written bare when it has nothing that splitting would take apart, in braces when its
own braces are balanced, and with backslashes otherwise.
-/

namespace CommandVM.ListText

/-- The characters that keep an element from being written bare. -/
def isSpecial (c : Char) : Bool :=
  isSpace c || c == '\x7b' || c == '\x7d' || c == '[' || c == ']' || c == '$' || c == ';' ||
    c == '\\' || c == '"'

/-- The braces of a text are balanced after `depth` open ones, where a backslash hides the character
after it and may not come last. -/
def isBalanced : Nat → List Char → Bool
  | depth, [] => depth == 0
  | _, ['\\'] => false
  | depth, '\\' :: _ :: cs => isBalanced depth cs
  | depth, '\x7b' :: cs => isBalanced (depth + 1) cs
  | 0, '\x7d' :: _ => false
  | depth + 1, '\x7d' :: cs => isBalanced depth cs
  | depth, _ :: cs => isBalanced depth cs

def escaped (c : Char) : List Char :=
  if c == '\n' then ['\\', 'n']
  else if c == '\t' then ['\\', 't']
  else if c == '\r' then ['\\', 'r']
  else if c == '\x0b' then ['\\', 'v']
  else if c == '\x0c' then ['\\', 'f']
  else if isSpecial c then ['\\', c]
  else [c]

/-- An element that splits back as it is. -/
def quoteChars : List Char → List Char
  | [] => ['\x7b', '\x7d']
  | c :: cs =>
    if c != '#' && !(c :: cs).any isSpecial then c :: cs
    else if isBalanced 0 (c :: cs) then '\x7b' :: (c :: cs) ++ ['\x7d']
    else (c :: cs).flatMap escaped

def joinChars : List (List Char) → List Char
  | [] => []
  | [e] => quoteChars e
  | e :: es => quoteChars e ++ ' ' :: joinChars es

def quote (text : String) : String := String.ofList (quoteChars text.toList)

def join (elements : List String) : String :=
  String.ofList (joinChars (elements.map String.toList))

end CommandVM.ListText
