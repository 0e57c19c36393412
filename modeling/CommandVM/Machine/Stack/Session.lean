import CommandVM.Machine.Stack

/-!
# Sessions of a stack

A stack is driven by operations. Entering a frame makes a mark, which is live until the frame is left
by it; frames may be left in any order.
-/

namespace CommandVM.Stack

/-- An operation on a stack. A frame is left by the place of its mark among the live ones. -/
inductive Op where
  | enter (maxDepth : Nat)
  | leave (mark : Nat)
  | push (v : Value)
  | pop
  | peekAt (n : Nat)
  | setTop (v : Value)
  | top (n : Nat)
  | discard (n : Nat)
  | truncate (height : Nat)

def Op.isInner : Op → Bool
  | .enter _ | .leave _ => false
  | _ => true

/-- A stack and the live marks, the oldest first. -/
structure Session where
  stack : Stack := {}
  marks : List FrameMark := []

namespace Session

/-- Applies an operation and gives the values that it reads. Nothing happens for a mark that is not
live. -/
def apply (g : Session) : Op → Except Violation (List Value × Session)
  | .enter maxDepth =>
    let (mark, stack) := g.stack.enter maxDepth
    .ok ([], { stack, marks := g.marks ++ [mark] })
  | .leave k => match g.marks[k]? with
    | none => .ok ([], g)
    | some mark =>
      (g.stack.leave mark).map fun stack => ([], { stack, marks := g.marks.eraseIdx k })
  | .push v => .ok ([], { g with stack := g.stack.push v })
  | .pop => g.stack.pop.map fun (v, stack) => ([v], { g with stack })
  | .peekAt n => (g.stack.peekAt n).map fun v => ([v], g)
  | .setTop v => (g.stack.setTop v).map fun stack => ([], { g with stack })
  | .top n => (g.stack.top n).map fun vs => (vs, g)
  | .discard n => (g.stack.discard n).map fun stack => ([], { g with stack })
  | .truncate height => (g.stack.truncate height).map fun stack => ([], { g with stack })

def run (g : Session) : List Op → Except Violation (List (List Value) × Session)
  | [] => .ok ([], g)
  | op :: ops => do
    let (seen, g) ← g.apply op
    let (more, g) ← g.run ops
    return (seen :: more, g)

end Session

end CommandVM.Stack
