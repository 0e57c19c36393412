/-!
# Lines

A line ends at a line feed, and a carriage return right before it belongs to the line end. Text
after the last line feed is a line when it is not empty.
-/

namespace CommandVM.Text

def dropReturn (line : List Char) : List Char :=
  match line.reverse with
  | '\r' :: rest => rest.reverse
  | _ => line

/-- The lines of a text, the first of them after `start` in reverse. -/
def linesFrom (start : List Char) : List Char → List (List Char)
  | [] => if start.isEmpty then [] else [start.reverse]
  | c :: cs =>
    if c == '\n' then dropReturn start.reverse :: linesFrom [] cs else linesFrom (c :: start) cs

def lines (cs : List Char) : List (List Char) := linesFrom [] cs

end CommandVM.Text
