import CommandVM.CompiledUnit.Container
import CommandVM.Disk
import CommandVM.Listing.Assembly
import CommandVM.Listing.Disassembly
import CommandVM.Machine.Run
import CommandVM.Verifier

/-!
# The command line tool

Five commands over files: `assemble` a listing into a container, and `verify`, `run`, `disassemble`
or `hash` a container. Each gives a report: an exit code and what goes to the two outputs.
-/

namespace CommandVM.Tool

structure Report where
  exit : UInt32 := 0
  out : String := ""
  err : String := ""
deriving Repr, DecidableEq

/-- The exit code for input that cannot be read, decoded or assembled. -/
def exitInput : UInt32 := 1
/-- The exit code for a unit that is not accepted. -/
def exitVerify : UInt32 := 2
/-- The exit code for an evaluation that does not complete normally. -/
def exitRuntime : UInt32 := 3

inductive Order where
  | assemble (input : String) (output : Option String)
  | verify (input : String)
  | run (input : String) (maxNesting : Option Nat)
  | disassemble (input : String)
  | hash (input : String)
deriving Repr, DecidableEq

/-- How a command ends: with a report, or with a violation of the stack's bounds after some
output. -/
inductive Ending where
  | report (r : Report)
  | violation (v : Violation) (out : String)

def failure (exit : UInt32) (lines : List String) : Report :=
  { exit, err := String.join (lines.map (· ++ "\n")) }

def success (line : String) : Report := { out := line ++ "\n" }

/-- The number of instructions of a unit, zero when its code does not decode. -/
def instructionCount (u : CompiledUnit) : Nat :=
  match Instruction.decodeAll u.code with
  | .ok instructions => instructions.length
  | .error _ => 0

def text? (bytes : List UInt8) : Option String := String.fromUTF8? ⟨bytes.toArray⟩

/-! ### Units -/

def unitOfListing (input : String) (content : Except FileError (List UInt8)) :
    Except Report CompiledUnit :=
  let unreadable (message : String) : Report :=
    failure exitInput ["error: cannot read '" ++ input ++ "': " ++ message]
  match content with
  | .error e => .error (unreadable e.message)
  | .ok bytes => match text? bytes with
    | none => .error (unreadable "stream did not contain valid UTF-8")
    | some text => match Listing.assemble text with
      | .error e => .error (failure exitInput ["error: " ++ e.message])
      | .ok u => .ok u

def unitOfContainer (input : String) (content : Except FileError (List UInt8)) :
    Except Report CompiledUnit :=
  match content with
  | .error e => .error (failure exitInput ["error: cannot read '" ++ input ++ "': " ++ e.message])
  | .ok bytes => match CompiledUnit.decode bytes with
    | .error e => .error (failure exitInput ["error: invalid container: " ++ e.message])
    | .ok u => .ok u

/-- The unit of a container file that is accepted, or the report of what was wrong. -/
def acceptedUnit (input : String) (content : Except FileError (List UInt8)) :
    Except Report CompiledUnit := do
  let u ← unitOfContainer input content
  match Verifier.errors u with
  | [] => return u
  | errors => .error (failure exitVerify (errors.map fun e => "error: " ++ e.message))

/-! ### Commands -/

def assembleReport (u : CompiledUnit) (size : Nat) (output : String) :
    Except FileError Unit → Report
  | .error e => failure exitInput ["error: cannot write '" ++ output ++ "': " ++ e.message]
  | .ok () =>
    { err := "assembled " ++ toString (instructionCount u) ++ " instructions (" ++ toString size ++
        " bytes) -> " ++ output ++ "\n" }

def verifyReport (input : String) (content : Except FileError (List UInt8)) : Report :=
  match acceptedUnit input content with
  | .error r => r
  | .ok u => success ("OK: " ++ input ++ " (" ++ toString (instructionCount u) ++ " instructions)")

def evaluationReport (output : String) : Except Exception Value → Report
  | .ok v => { out := output ++ (if v.str = "" then "" else v.str ++ "\n") }
  | .error e =>
    let shown := if e.code = .error then e.info else e.message
    { exit := exitRuntime, out := output, err := "runtime error: " ++ shown ++ "\n" }

/-- The end of `run`, for `fuel` dispatches of each frame at most. -/
def runEnding (fuel : Nat) (input : String) (maxNesting : Option Nat)
    (content : Except FileError (List UInt8)) : Ending :=
  match acceptedUnit input content with
  | .error r => .report r
  | .ok u =>
    let start := Machine.standard
    let start := { start with maxNesting := maxNesting.getD start.maxNesting }
    match Machine.eval fuel u start with
    | (.ok v, m) => .report (evaluationReport m.output (.ok v))
    | (.error (.exception e), m) => .report (evaluationReport m.output (.error e))
    | (.error (.violation v), m) => .violation v m.output
    | (.error .outOfFuel, m) =>
      .report { exit := exitRuntime, out := m.output, err := "runtime error: out of fuel\n" }

def disassembleReport (input : String) (content : Except FileError (List UInt8)) : Report :=
  match unitOfContainer input content with
  | .error r => r
  | .ok u => match Listing.disassemble u with
    | .error e =>
      failure exitInput ["error: cannot disassemble '" ++ input ++ "': " ++ e.message]
    | .ok text => { out := text }

def hashReport (input : String) (content : Except FileError (List UInt8)) : Report :=
  match unitOfContainer input content with
  | .error r => r
  | .ok u => success (u.digest ++ "  " ++ input)

def assemble {m : Type → Type} [Monad m] (files : Files m) (input : String)
    (output : Option String) : m Report := do
  let output := output.getD (Path.withEnding input "qbc")
  match unitOfListing input (← files.read input) with
  | .error r => return r
  | .ok u =>
    let bytes := u.encode
    return assembleReport u bytes.length output (← files.write output bytes)

def perform {m : Type → Type} [Monad m] (files : Files m) (fuel : Nat) (order : Order) :
    m Ending := do
  match order with
  | .assemble input output => return .report (← assemble files input output)
  | .verify input => return .report (verifyReport input (← files.read input))
  | .run input maxNesting => return runEnding fuel input maxNesting (← files.read input)
  | .disassemble input => return .report (disassembleReport input (← files.read input))
  | .hash input => return .report (hashReport input (← files.read input))

end CommandVM.Tool
