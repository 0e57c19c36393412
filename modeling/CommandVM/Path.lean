/-!
# Paths

A path is a text of names with slashes between them. A single dot stands for the directory itself,
two dots for the one above. The ending of a name is what follows its last dot.
-/

namespace CommandVM.Path

def pieces (path : String) : List String :=
  (path.toList.foldr (fun c pieces =>
    if c == '/' then [] :: pieces
    else match pieces with
      | [] => [[c]]
      | piece :: rest => (c :: piece) :: rest) [[]]).map String.ofList

def steps (path : String) : List String := (pieces path).filter (· ≠ "")

def isAbsolute (path : String) : Bool := (pieces path).head? = some "" && path ≠ ""

def endsInSlash (path : String) : Bool := (pieces path).getLast? = some "" && path ≠ ""

/-- The path without the slashes and single dots that follow its last name, both reversed. -/
def stripEnd : List Char → List Char
  | '/' :: rest => stripEnd rest
  | '.' :: '/' :: rest => stripEnd rest
  | cs => cs

/-- The last name of a path and what comes before it. A path that ends in one or two dots has no
last name. -/
def lastName? (path : List Char) : Option (List Char × List Char) :=
  let cs := (stripEnd path.reverse).reverse
  let name := (cs.reverse.takeWhile (· != '/')).reverse
  if name = [] || name = ['.'] || name = ['.', '.'] then none
  else some (cs.take (cs.length - name.length), name)

/-- A name without its ending, which starts at the last dot unless that comes first. -/
def stem (name : List Char) : List Char :=
  match name.reverse.dropWhile (· != '.') with
  | _ :: c :: rest => (c :: rest).reverse
  | _ => name

/-- A name without the text of its ending, whose dot is kept. -/
def cutEnding (name : List Char) : List Char :=
  if stem name = name then name else name.take ((stem name).length + 1)

/-- The path with another ending on its last name. The text of the old ending goes first: a path
that has no last name, or none after that, gets no ending. -/
def withEnding (path ending : String) : String :=
  match lastName? path.toList with
  | none => path
  | some (before, name) =>
    let cut := before ++ cutEnding name
    match lastName? cut with
    | none => String.ofList cut
    | some (before, name) => String.ofList (before ++ stem name) ++ "." ++ ending

end CommandVM.Path
