import CommandVM.Fault
import CommandVM.Value

/-!
# Exceptions

An instruction that does not complete normally raises an exception: an error, one of the loop and
return codes, or a code of the application. An error carries a trace and, once it is attributed, the
place where it arose.
-/

namespace CommandVM

inductive Code where
  | error
  | returnValue
  | breakLoop
  | continueLoop
  | other (number : Int32)
deriving Repr, DecidableEq

namespace Code

def number : Code → Int32
  | .error => 1
  | .returnValue => 2
  | .breakLoop => 3
  | .continueLoop => 4
  | .other n => n

/-- The code with a number; zero is normal completion. -/
def ofNumber? (n : Int32) : Option Code :=
  if n == 0 then none
  else if n == 1 then some .error
  else if n == 2 then some .returnValue
  else if n == 3 then some .breakLoop
  else if n == 4 then some .continueLoop
  else some (.other n)

def word : Code → String
  | .error => "error"
  | .returnValue => "return"
  | .breakLoop => "break"
  | .continueLoop => "continue"
  | .other n => toString n.toInt

def loopExit? : Code → Option LoopExit
  | .breakLoop => some .breakLoop
  | .continueLoop => some .continueLoop
  | _ => none

end Code

/-- Where an error arose: the offset of its instruction, and the source span of the command around
it. -/
structure Location where
  pc : Nat
  span : Option (Nat × Nat)
deriving Repr, DecidableEq

structure Exception where
  code : Code
  /-- The message of an error, or the value of another completion. -/
  value : Value
  fault : Option Fault := none
  /-- The trace of an error, which starts with its message. -/
  info : String := ""
  location : Option Location := none
  attributed : Bool := false

namespace Exception

def ofFault (f : Fault) : Exception :=
  { code := .error, value := .text f.message, fault := some f, info := f.message }

def ofMessage (message : String) : Exception := ofFault (.delegate message)

def complete (code : Code) (value : Value) : Exception :=
  { code, value, info := if code = .error then value.str else "" }

/-- The greatest number of characters of a command that a trace shows. -/
def snippetLimit : Nat := 150

def ellipsis (text : String) : String :=
  let cs := text.toList
  if snippetLimit < cs.length then String.ofList (cs.take snippetLimit) ++ "..." else text

def addInfo (e : Exception) (more : String) : Exception := { e with info := e.info ++ more }

/-- Notes where the error arose and which command it was in. Only the first note counts. -/
def attributeTo (e : Exception) (location : Option Location) (snippet : Option String) :
    Exception :=
  if e.attributed then e
  else
    let e := { e with attributed := true, location }
    match snippet with
    | some text => e.addInfo ("\n    while executing\n\"" ++ ellipsis text ++ "\"")
    | none => e

def errorCode (e : Exception) : String := (e.fault.map Fault.errorCode).getD "NONE"

/-- The error says that code or a table of a unit is broken. -/
def isMalformed (e : Exception) : Bool :=
  match e.fault with
  | some (.malformed _) => true
  | _ => false

def message (e : Exception) : String :=
  if e.code = .error then e.value.str else e.code.word ++ " completion: " ++ e.value.str

end Exception

end CommandVM
