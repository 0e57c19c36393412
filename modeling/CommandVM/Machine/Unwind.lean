import CommandVM.Machine.Frame

/-!
# Unwinding

The innermost range around an instruction decides what becomes of its exception. A loop range takes
`break` and `continue` to its targets. A catch range takes every code to its target, with the stack
cut to the height that was saved last. Without such a range the frame is abandoned.
-/

namespace CommandVM.Frame

inductive Resume where
  | at (pc : Nat)
  | abandon (e : Exception)

/-- The last range around an offset, which is the innermost; on demand only among catch ranges. -/
def innermost? (ranges : List ExceptionRange) (pc : Nat) (catchOnly : Bool) :
    Option ExceptionRange :=
  (ranges.filter fun r => r.contains pc && (!catchOnly || r.kind == .catch)).getLast?

/-- Leaves the frame with an exception. An error that is not attributed gets the place at `pc`. -/
def abandon (f : Frame) (pc : Nat) (e : Exception) : Action Exception := do
  Action.reshape (·.truncate f.base)
  if e.code = .error then
    let command := f.unit.commandAt pc
    let span := command.map fun c => (c.sourceStart.toNat, c.sourceSize.toNat)
    return e.attributeTo (some { pc, span }) (command.bind f.unit.snippet)
  else return e

def giveUp (f : Frame) (pc : Nat) (e : Exception) : Action (Resume × Frame) := do
  return (.abandon (← f.abandon pc e), f)

def catchWith (f : Frame) (pc : Nat) (r : ExceptionRange) (e : Exception) :
    Action (Resume × Frame) :=
  match r.catchTarget, f.catchHeights with
  -- The last height saved is taken, whichever range it was saved for.
  | some target, height :: _ => do
    Action.reshape (·.truncate height)
    Action.modify fun m =>
      let m := { m with result := e.value }
      if e.code = .error then m.recordError e else m
    return (.at target.toNat, { f with lastCode := e.code.number })
  | _, _ => f.giveUp pc e

/-- Looks for a catch range, if a height is saved. -/
def lookForCatch (f : Frame) (pc : Nat) (e : Exception) : Action (Resume × Frame) :=
  if f.catchHeights.isEmpty then f.giveUp pc e
  else match innermost? f.unit.ranges pc true with
    | some r => f.catchWith pc r e
    | none => f.giveUp pc e

def exitTarget (r : ExceptionRange) : LoopExit → Option UInt32
  | .breakLoop => r.breakTarget
  | .continueLoop => r.continueTarget

def handle (f : Frame) (pc : Nat) (i : Instruction) (e : Exception) : Action (Resume × Frame) :=
  match e.code.loopExit?, innermost? f.unit.ranges pc false with
  | some exit, some r =>
    if r.kind = .catch then f.catchWith pc r e
    else match exitTarget r exit with
      | some target => do
        Action.discard i.pops
        return (.at target.toNat, f)
      -- A loop without the target is passed over, and so are the loops around it.
      | none => f.lookForCatch pc e
  | _, _ => f.lookForCatch pc e

end CommandVM.Frame
