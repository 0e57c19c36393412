import CommandVM.Verifier.Layout

/-!
# Stack depths

The third pass walks the control flow from offset 0 and notes the stack depth at which each
instruction is reached first. A loop range's targets are entered with the depth at the range's
start, a catch target with the depth at its `BEGIN_CATCH4`. An instruction that can leave a loop has
to leave just the depth at the start of the loop's range.
-/

namespace CommandVM.Verifier

/-- The state of the walk: the depth of each offset reached, the offsets still to be looked at, the
errors so far, and the greatest depth. -/
structure Walk where
  depths : List (Nat × Nat) := []
  pending : List Nat := []
  errors : List Error := []
  required : Nat := 0

namespace Walk

def depth? (w : Walk) (offset : Nat) : Option Nat := w.depths.lookup offset

def report (w : Walk) (e : Error) : Walk := { w with errors := w.errors ++ [e] }

/-- The offset is reached with a depth. Offsets at which no instruction starts are left alone. -/
def enter (l : Layout) (offset depth : Nat) (w : Walk) : Walk :=
  if !l.isBoundary offset then w
  else match w.depth? offset with
    | none => { w with depths := w.depths ++ [(offset, depth)], pending := offset :: w.pending }
    | some seen => if seen = depth then w else w.report (.inconsistentDepth offset seen depth)

def enterTarget (l : Layout) (target : Option UInt32) (depth : Nat) (w : Walk) : Walk :=
  match target with
  | some offset => w.enter l offset.toNat depth
  | none => w

/-- Enters the targets of the loop ranges that start at an offset. -/
def enterLoops (u : CompiledUnit) (l : Layout) (offset depth : Nat) (w : Walk) : Walk :=
  (u.ranges.filter fun r => r.start.toNat = offset && r.kind == .loop).foldl
    (fun w r => (w.enterTarget l r.breakTarget depth).enterTarget l r.continueTarget depth) w

def enterCatch (u : CompiledUnit) (l : Layout) (i : Instruction) (depth : Nat) (w : Walk) : Walk :=
  if i.opcode == .beginCatch4 then
    w.enterTarget l (u.ranges[i.index]?.bind ExceptionRange.catchTarget) depth
  else w

def enterJump (l : Layout) (offset : Nat) (i : Instruction) (depth : Nat) (w : Walk) : Walk :=
  match i.jumpTarget? offset with
  | some target => if 0 ≤ target then w.enter l target.toNat depth else w
  | none => w

def enterNext (l : Layout) (offset : Nat) (i : Instruction) (depth : Nat) (w : Walk) : Walk :=
  if i.opcode.isTerminal then w else w.enter l (offset + i.size) depth

def visit (u : CompiledUnit) (l : Layout) (offset : Nat) (i : Instruction) (depth : Nat)
    (w : Walk) : Walk :=
  let w := w.enterLoops u l offset depth
  if i.opcode == .done then
    let w := { w with required := max w.required depth }
    if depth = 1 then w else w.report (.unbalancedDone offset depth)
  else if depth < i.pops then w.report (.stackUnderflow offset depth i.pops)
  else
    let after := depth - i.pops + i.pushes
    let w := { w with required := max (max w.required after) depth }
    -- A handler is entered at the depth before its `BEGIN_CATCH4`, the other targets after theirs.
    ((w.enterCatch u l i depth).enterJump l offset i after).enterNext l offset i after

/-- Looks at the pending offset that was entered last. -/
def step (u : CompiledUnit) (l : Layout) (w : Walk) : Walk :=
  match w.pending with
  | [] => w
  | offset :: pending =>
    let w := { w with pending }
    match l.instruction? offset, w.depth? offset with
    | some i, some depth => w.visit u l offset i depth
    | _, _ => w

def steps (u : CompiledUnit) (l : Layout) : Nat → Walk → Walk
  | 0, w => w
  | n + 1, w => match w.pending with
    | [] => w
    | _ :: _ => steps u l n (w.step u l)

end Walk

/-- The walk from offset 0. Each instruction is pending at most once, so there are no more steps
than instructions. -/
def walk (u : CompiledUnit) (l : Layout) : Walk :=
  Walk.steps u l l.instructions.length (({} : Walk).enter l 0 0)

/-! ### Loop exits -/

/-- The range of a loop exit at an offset with its index: the last range around it, if that is a
loop with a target for the exit. -/
def exitRange? (u : CompiledUnit) (offset : Nat) (i : Instruction) :
    Option (ExceptionRange × Nat) :=
  match (u.ranges.zipIdx.filter fun (r, _) => r.contains offset).getLast? with
  | some (r, index) =>
    let resolves := match i.opcode with
      | .breakLoop => r.breakTarget.isSome
      | .continueLoop => r.continueTarget.isSome
      -- The command decides which of the two exits it asks for, if any.
      | .invokeStk1 | .invokeStk4 => r.breakTarget.isSome || r.continueTarget.isSome
      | _ => false
    if r.kind == .loop && resolves then some (r, index) else none
  | none => none

/-- The error of a loop exit that leaves another depth than its range starts with. -/
def exitErrors (u : CompiledUnit) (w : Walk) (offset : Nat) (i : Instruction) : List Error :=
  match exitRange? u offset i, w.depth? offset with
  | some (r, range), some depth => match w.depth? r.start.toNat with
    | some expected =>
      let left := depth - i.pops
      if left = expected then [] else [.unbalancedLoopExit offset range left expected]
    -- Nothing is known of a range whose start is not reached.
    | none => []
  | _, _ => []

def depthErrors (u : CompiledUnit) (l : Layout) : List Error :=
  let w := walk u l
  w.errors ++ l.instructions.flatMap (fun (offset, i) => exitErrors u w offset i) ++
    if u.maxStack.toNat < w.required then [.maxDepthTooSmall u.maxStack w.required] else []

end CommandVM.Verifier
