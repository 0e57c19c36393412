import CommandVM.Instruction
import CommandVM.Verifier.Error

/-!
# Code layout

The first pass decodes the code, checks operands against the tables and jumps against the
instruction boundaries. The layout that it finds serves the later passes.
-/

namespace CommandVM.Verifier

/-- The instructions of some code with their offsets, and the size of the code. -/
structure Layout where
  instructions : List (Nat × Instruction)
  size : Nat

namespace Layout

def instruction? (l : Layout) (offset : Nat) : Option Instruction := l.instructions.lookup offset

def isBoundary (l : Layout) (offset : Nat) : Bool := (l.instruction? offset).isSome

def isTarget (l : Layout) (target : Int) : Bool := 0 ≤ target && l.isBoundary target.toNat

end Layout

def isCatchRange (u : CompiledUnit) (range : Nat) : Bool :=
  match u.ranges[range]? with
  | some r => r.kind == .catch
  | none => false

def operandErrors (u : CompiledUnit) (offset : Nat) (i : Instruction) : List Error :=
  let index := i.index
  match i.opcode with
  | .push1 | .push4 =>
    if u.literals.length ≤ index then [.literalOutOfRange offset index] else []
  | .foreachStart4 | .foreachStep4 =>
    if u.foreachInfos.length ≤ index then [.foreachOutOfRange offset index] else []
  | .callBuiltinFunc1 =>
    if (MathFunction.ofIndex? index).isNone then [.unknownBuiltin offset index] else []
  | .invokeStk1 | .invokeStk4 | .callFunc1 => if index = 0 then [.zeroArgCount offset] else []
  | .beginCatch4 => if isCatchRange u index then [] else [.badCatchRange offset index]
  | op =>
    if op.takesLocal && u.locals.length ≤ index then [.localOutOfRange offset index] else []

/-- The error of a jump that lands outside the code or inside an instruction. -/
def jumpErrors (l : Layout) (offset : Nat) (i : Instruction) : List Error :=
  match i.jumpTarget? offset with
  | some target => if l.isTarget target then [] else [.badJumpTarget offset target]
  | none => []

/-- The error of a last instruction from which control can leave the code. -/
def terminalErrors (l : Layout) : List Error :=
  match l.instructions.getLast? with
  | some (offset, i) => if i.opcode.isTerminal then [] else [.missingTerminal offset]
  | none => []

def foreachSlots (f : ForeachInfo) : List UInt32 :=
  f.counterSlot :: f.lists.flatMap fun l => l.listSlot :: l.varSlots

/-- The errors of foreach loops that name slots out of range. -/
def foreachErrors (u : CompiledUnit) : List Error :=
  u.foreachInfos.zipIdx.flatMap fun (f, info) =>
    ((foreachSlots f).filter fun slot => u.locals.length ≤ slot.toNat).map
      (.foreachSlotOutOfRange info ·)

def layout (u : CompiledUnit) : Except Error Layout :=
  if u.code.isEmpty then .error .emptyCode
  else match Instruction.decodeAll u.code with
    | .error e => .error (.decode e)
    | .ok instructions => .ok { instructions, size := u.code.length }

def layoutErrors (u : CompiledUnit) (l : Layout) : List Error :=
  l.instructions.flatMap (fun (offset, i) => operandErrors u offset i ++ jumpErrors l offset i) ++
    terminalErrors l ++ foreachErrors u

def jumpsLand (l : Layout) : Bool :=
  l.instructions.all fun (offset, i) => (jumpErrors l offset i).isEmpty

end CommandVM.Verifier
