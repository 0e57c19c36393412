import CommandVM.CompiledUnit
import CommandVM.Machine.Exception
import CommandVM.Machine.Stack
import CommandVM.Machine.Variables
import CommandVM.MathFunction

/-!
# The state of a machine

Commands, math functions and handlers of asynchronous events are data, so that a machine's state is
all that decides what it does.
-/

namespace CommandVM

/-- A command that code can invoke by name. -/
inductive Command where
  /-- `puts ?-nonewline? string` writes to the output. -/
  | puts
  /-- `list ?arg ...?` gives the list of its arguments. -/
  | list
  /-- `error message` raises an error. -/
  | error
  /-- `break` raises the loop code. -/
  | breakLoop
  /-- `continue` raises the loop code. -/
  | continueLoop
  /-- `return ?-code code? ?value?` completes with a code. -/
  | returnValue
  /-- A procedure: its name, its parameters and its body. -/
  | proc (name : String) (params : List String) (body : CompiledUnit)
  /-- Gives a fixed value. -/
  | const (value : Value)
  /-- Completes with a fixed code number and value. -/
  | raise (code : Int32) (value : Value)
  /-- Joins the texts of its arguments with dashes. -/
  | join
  /-- Executes a unit in the scope of the caller. -/
  | execute (body : CompiledUnit)
  /-- Invokes the command that its arguments name. -/
  | invoke (hint : Option String)
  /-- Invokes itself again. -/
  | recurse
  /-- Reads the variable that its argument names. -/
  | get
  /-- Gives the height of the evaluation stack. -/
  | height
  /-- Marks an asynchronous event. -/
  | mark

inductive FunctionBody where
  /-- The first argument. -/
  | echo
  /-- The sum of the arguments: of doubles when there is one, else of integers. -/
  | sum
  /-- Completes with a fixed code number and value; zero gives zero. -/
  | raise (code : Int32) (value : Value)

structure UserFunction where
  args : List ArgKind
  body : FunctionBody

/-- What is done with the completion of a unit after an asynchronous event. -/
inductive Handler where
  /-- Passes it on. -/
  | pass
  /-- Replaces it with a value. -/
  | replace (value : Value)
  /-- Replaces it with an error. -/
  | fail (message : String)
  /-- Shows it as a text. -/
  | wrap
  /-- Marks another event and passes it on. -/
  | remark

/-- A machine. -/
structure Machine where
  stack : Stack := {}
  store : Store := {}
  commands : List (String × Command) := []
  functions : List (String × UserFunction) := []
  seed : Option Nat := none
  /-- The time at which a generator without a seed starts, in nanoseconds. -/
  clock : Int64 := 0
  /-- The deepest allowed nesting of evaluations. -/
  maxNesting : Nat := 200
  nesting : Nat := 0
  result : Value := Value.empty
  errorInfo : String := ""
  errorCode : String := "NONE"
  /-- An asynchronous event waits. -/
  marked : Bool := false
  handlers : List Handler := []
  /-- What was written so far. -/
  output : String := ""

instance : Inhabited Machine := ⟨{}⟩

namespace Machine

/-- Registers a command; a later one of the same name takes precedence. -/
def addCommand (m : Machine) (name : String) (command : Command) : Machine :=
  { m with commands := (name, command) :: m.commands }

def addFunction (m : Machine) (name : String) (f : UserFunction) : Machine :=
  { m with functions := (name, f) :: m.functions }

def addHandler (m : Machine) (h : Handler) : Machine := { m with handlers := m.handlers ++ [h] }

def standardCommands : List (String × Command) :=
  [("puts", .puts), ("list", .list), ("error", .error), ("break", .breakLoop),
    ("continue", .continueLoop), ("return", .returnValue)]

def standard : Machine := { commands := standardCommands }

def recordError (m : Machine) (e : Exception) : Machine :=
  { m with errorInfo := e.info, errorCode := e.errorCode }

end Machine

end CommandVM
