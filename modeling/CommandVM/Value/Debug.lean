import CommandVM.Text.Invisible
import CommandVM.Value

/-!
# Debug text

The debug text of a value shows its representation.
-/

namespace CommandVM.Value

def debugChar (c : Char) : List Char :=
  if c == '"' then ['\\', '"']
  else if c == '\\' then ['\\', '\\']
  else if c == '\n' then ['\\', 'n']
  else if c == '\t' then ['\\', 't']
  else if c == '\r' then ['\\', 'r']
  else if c == '\x00' then ['\\', '0']
  else if Text.isInvisible c then '\\' :: 'u' :: '\x7b' :: Nat.toDigits 16 c.toNat ++ ['\x7d']
  else [c]

def debugString (s : String) : String :=
  String.ofList ('"' :: s.toList.flatMap debugChar ++ ['"'])

mutual

def debugText : Value → String
  | .text s => debugString s
  | .int v => "Int(" ++ toString v.toInt ++ ")"
  | .wide v => "Wide(" ++ toString v.toInt ++ ")"
  | .double v => "Double(" ++ Number.doubleTextIn Number.plainStyle v ++ ")"
  | .list items => "[" ++ String.intercalate ", " (debugTexts items) ++ "]"

def debugTexts : List Value → List String
  | [] => []
  | v :: vs => v.debugText :: debugTexts vs

end

end CommandVM.Value
