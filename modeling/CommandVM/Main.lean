import CommandVM.Tool.Arguments

/-!
# The program

Reads the arguments, lets the tool work on the files of the system, and prints its report.
-/

namespace CommandVM.Tool

/-- The error of a file operation of the system, whose code may come negated. -/
def systemError (e : IO.Error) : FileError :=
  let hasCode (code wanted : UInt32) : Bool := code == wanted || code == -wanted
  match e with
  | .noFileOrDirectory _ _ _ => .notFound
  | .inappropriateType _ code _ => if hasCode code 21 then .isADirectory else .notADirectory
  | .invalidArgument _ code _ => if hasCode code 36 then .nameTooLong else .other e.toString
  | _ => .other e.toString

def systemFiles : Files IO where
  read path := do
    try
      let bytes ← IO.FS.readBinFile path
      return .ok bytes.toList
    catch e => return .error (systemError e)
  write path content := do
    try
      IO.FS.writeBinFile path ⟨content.toArray⟩
      return .ok ()
    catch e => return .error (systemError e)

/-- More dispatches than any run will see. -/
def systemFuel : Nat := 1000000000000000000

/-- The exit code for a violation of the stack's bounds. -/
def exitViolation : UInt32 := 101

def runOrder (order : Order) : IO UInt32 := do
  match ← perform systemFiles systemFuel order with
  | .report r =>
    IO.print r.out
    IO.eprint r.err
    return r.exit
  | .violation v out =>
    IO.print out
    IO.eprintln v.message
    return exitViolation

end CommandVM.Tool

def main (args : List String) : IO UInt32 := do
  match CommandVM.Tool.request args with
  | .ok (.order order) => CommandVM.Tool.runOrder order
  | .ok .help =>
    IO.print CommandVM.Tool.usage
    return 0
  | .ok .version =>
    IO.println "commandvm 0.1.0"
    return 0
  | .error e =>
    IO.eprintln ("error: " ++ e.message)
    return CommandVM.Tool.exitInput
