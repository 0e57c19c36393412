import CommandVM.Value

/-!
# The evaluation stack

All frames share one stack. A frame has a floor, below which it may not reach; an operation that
would do so is a violation, which ends the run.
-/

namespace CommandVM

/-- A stack operation that would break the bounds of its frame. -/
inductive Violation where
  | baseAboveHeight (base height : Nat)
  | popAtBase (floor : Nat)
  | peek (n depth : Nat)
  | noTop (floor : Nat)
  | operands (n depth : Nat)
  | discard (n depth : Nat)
  | unwind (height floor top : Nat)
  | unbalancedDone (depth : Nat)
deriving Repr, DecidableEq

def Violation.detail : Violation → String
  | .baseAboveHeight base height => s!"frame base {base} is above the stack height {height}"
  | .popAtBase floor => s!"pop at frame base {floor}"
  | .peek n depth => s!"peek {n} below the top with depth {depth}"
  | .noTop floor => s!"no value above frame base {floor}"
  | .operands n depth => s!"{n} operands requested with depth {depth}"
  | .discard n depth => s!"discard {n} with depth {depth}"
  | .unwind height floor top => s!"unwind to height {height} outside [{floor}, {top}]"
  | .unbalancedDone depth => s!"DONE with {depth} values above the frame base"

def Violation.message (v : Violation) : String := "stack consistency violation: " ++ v.detail

/-- The evaluation stack. -/
structure Stack where
  /-- The values, the top first. -/
  slots : List Value := []
  /-- The height below which the current frame may not reach. -/
  floor : Nat := 0
  /-- The height that the current frame says it stays within. -/
  limit : Option Nat := none

/-- What a frame restores when it is left. -/
structure FrameMark where
  base : Nat
  savedFloor : Nat
  savedLimit : Option Nat
deriving Repr, DecidableEq

namespace Stack

def height (s : Stack) : Nat := s.slots.length

/-- The number of values above the floor. -/
def depth (s : Stack) : Nat := s.height - s.floor

/-- Starts a frame that says it needs at most `maxDepth` values. -/
def enter (s : Stack) (maxDepth : Nat) : FrameMark × Stack :=
  ({ base := s.height, savedFloor := s.floor, savedLimit := s.limit },
    { s with floor := s.height, limit := some (s.height + maxDepth) })

def cut (s : Stack) (height : Nat) : Stack := { s with slots := s.slots.drop (s.height - height) }

/-- Ends a frame with what it left above its base. -/
def leave (s : Stack) (mark : FrameMark) : Except Violation Stack :=
  if s.height < mark.base then .error (.baseAboveHeight mark.base s.height)
  else .ok { s.cut mark.base with floor := mark.savedFloor, limit := mark.savedLimit }

def push (s : Stack) (v : Value) : Stack := { s with slots := v :: s.slots }

def pop (s : Stack) : Except Violation (Value × Stack) :=
  match s.slots with
  | v :: slots =>
    if s.height ≤ s.floor then .error (.popAtBase s.floor) else .ok (v, { s with slots })
  | [] => .error (.popAtBase s.floor)

def peekAt (s : Stack) (n : Nat) : Except Violation Value :=
  match if n < s.depth then s.slots[n]? else none with
  | some v => .ok v
  | none => .error (.peek n s.depth)

def peek (s : Stack) : Except Violation Value := s.peekAt 0

def setTop (s : Stack) (v : Value) : Except Violation Stack :=
  match s.slots with
  | _ :: slots =>
    if s.depth = 0 then .error (.noTop s.floor) else .ok { s with slots := v :: slots }
  | [] => .error (.noTop s.floor)

/-- The top `n` values, the lowest first. -/
def top (s : Stack) (n : Nat) : Except Violation (List Value) :=
  if s.depth < n then .error (.operands n s.depth) else .ok (s.slots.take n).reverse

def discard (s : Stack) (n : Nat) : Except Violation Stack :=
  if s.depth < n then .error (.discard n s.depth) else .ok { s with slots := s.slots.drop n }

def truncate (s : Stack) (height : Nat) : Except Violation Stack :=
  if height < s.floor || s.height < height then .error (.unwind height s.floor s.height)
  else .ok (s.cut height)

end Stack

end CommandVM
