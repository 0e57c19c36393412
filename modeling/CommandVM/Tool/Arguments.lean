import CommandVM.Text.Integer
import CommandVM.Tool

/-!
# Command line arguments

The first word names a command and the next its input; options may stand anywhere. An option takes
its value from the same argument after an equals sign, or from the argument that follows.
-/

namespace CommandVM.Tool

inductive Request where
  | order (o : Order)
  | help
  | version
deriving Repr, DecidableEq

inductive ArgumentError where
  | unknownOption (arg : String)
  | missingValue (option : String)
  | badNumber (option : String) (value : String)
  | missingCommand
  | unknownCommand (name : String)
  | missingInput (command : String)
  | tooMany (arg : String)
  | misplaced (option : String) (command : String)
deriving Repr, DecidableEq

def ArgumentError.message : ArgumentError → String
  | .unknownOption arg => s!"unexpected argument '{arg}' found"
  | .missingValue option => s!"a value is required for '{option}' but none was supplied"
  | .badNumber option value => s!"invalid value '{value}' for '{option}'"
  | .missingCommand => "a command is required"
  | .unknownCommand name => s!"unrecognized command '{name}'"
  | .missingInput command => s!"'{command}' requires an input file"
  | .tooMany arg => s!"unexpected argument '{arg}' found"
  | .misplaced option command => s!"'{option}' cannot be used with '{command}'"

/-- The arguments in order: words, and options with their values. -/
structure Arguments where
  words : List String := []
  output : Option String := none
  stackSize : Option Nat := none
  maxNesting : Option Nat := none
  help : Bool := false
  version : Bool := false
deriving Repr, DecidableEq

def natValue (option value : String) : Except ArgumentError Nat :=
  match Text.natural? 10 value.toList with
  | some n => .ok n
  | none => .error (.badNumber option value)

def Arguments.setOption (a : Arguments) (option value : String) :
    Except ArgumentError Arguments := do
  match option with
  | "-o" | "--output" => return { a with output := some value }
  | "--stack-size" => return { a with stackSize := some (← natValue option value) }
  | "--max-nesting" => return { a with maxNesting := some (← natValue option value) }
  | _ => .error (.unknownOption option)

def takesValue (option : String) : Bool :=
  option == "-o" || option == "--output" || option == "--stack-size" || option == "--max-nesting"

/-- A count of `v` after a dash, which asks for more diagnostics. -/
def isVerbose (arg : String) : Bool :=
  arg == "--verbose" || match arg.toList with
    | '-' :: 'v' :: rest => rest.all (· == 'v')
    | _ => false

def splitOption? (arg : String) : Option (String × String) :=
  let cs := arg.toList
  match cs.dropWhile (· != '=') with
  | _ :: value => some (String.ofList (cs.takeWhile (· != '=')), String.ofList value)
  | [] => none

def readArguments (a : Arguments) : List String → Except ArgumentError Arguments
  | [] => .ok a
  | [arg] => readOne arg
  | arg :: value :: rest =>
    if takesValue arg then
      match a.setOption arg value with
      | .ok a => readArguments a rest
      | .error e => .error e
    else match readOne arg with
      | .ok a => readArguments a (value :: rest)
      | .error e => .error e
where
  /-- Reads an argument that takes no value from the next one. -/
  readOne (arg : String) : Except ArgumentError Arguments :=
    if arg == "-h" || arg == "--help" then .ok { a with help := true }
    else if arg == "-V" || arg == "--version" then .ok { a with version := true }
    else if isVerbose arg then .ok a
    else if takesValue arg then .error (.missingValue arg)
    else if arg.toList.head? != some '-' || arg == "-" then .ok { a with words := a.words ++ [arg] }
    else match splitOption? arg with
      | some (option, value) => a.setOption option value
      | none => .error (.unknownOption arg)

def orderOf (command input : String) (a : Arguments) : Except ArgumentError Order :=
  match command with
  | "assemble" => .ok (.assemble input a.output)
  | "verify" => .ok (.verify input)
  | "run" => .ok (.run input a.maxNesting)
  | "disassemble" => .ok (.disassemble input)
  | "hash" => .ok (.hash input)
  | _ => .error (.unknownCommand command)

/-- The first option that a command does not have. -/
def misplaced? (command : String) (a : Arguments) : Option String :=
  if a.output.isSome && command ≠ "assemble" then some "--output"
  else if a.stackSize.isSome && command ≠ "run" then some "--stack-size"
  else if a.maxNesting.isSome && command ≠ "run" then some "--max-nesting"
  else none

def request (args : List String) : Except ArgumentError Request := do
  let a ← readArguments {} args
  if a.help then return .help
  else if a.version then return .version
  else match a.words with
    | [] => .error .missingCommand
    | [command] => .error (.missingInput command)
    | [command, input] =>
      let order ← orderOf command input a
      match misplaced? command a with
      | some option => .error (.misplaced option command)
      | none => return .order order
    | _ :: _ :: extra :: _ => .error (.tooMany extra)

def usage : String :=
  "Assemble, verify and run compiled units\n\n" ++
  "Usage: commandvm [OPTIONS] <COMMAND>\n\n" ++
  "Commands:\n" ++
  "  assemble <INPUT> [-o <OUTPUT>]    Assemble text to a binary container\n" ++
  "  verify <INPUT>                    Verify a binary container\n" ++
  "  run <INPUT> [--stack-size <N>] [--max-nesting <N>]\n" ++
  "                                    Verify and execute a binary container\n" ++
  "  disassemble <INPUT>               Disassemble a binary container to text\n" ++
  "  hash <INPUT>                      Print the BLAKE3 digest of a binary container\n\n" ++
  "Options:\n" ++
  "  -v, --verbose...                  Increase log verbosity\n" ++
  "  -h, --help                        Print help\n" ++
  "  -V, --version                     Print version\n"

end CommandVM.Tool
