import CommandVM.Instruction
import CommandVM.ListText.Index
import CommandVM.Machine.Action
import CommandVM.Machine.Arithmetic
import CommandVM.Operator

/-!
# Frames and steps

A frame is one run of a compiled unit. A step looks at the operands of an instruction without taking
them and tells its effect: where control goes, how many operands go, and what comes in their place.
An instruction that fails has therefore left its operands on the stack.
-/

namespace CommandVM

/-- One run of a compiled unit. -/
structure Frame where
  unit : CompiledUnit
  /-- The height of the stack when the frame was entered. -/
  base : Nat
  /-- The variable of each local slot. -/
  slots : List Nat
  /-- The heights saved by `BEGIN_CATCH4`, the last first. -/
  catchHeights : List Nat := []
  /-- The code of the exception that was caught last. -/
  lastCode : Int32 := 0

inductive Next where
  | advance
  /-- A distance from the instruction. -/
  | jump (distance : Int)
  | done

/-- What comes in place of the operands. -/
inductive Emit where
  | nothing
  | push (v : Value)
  /-- A number overwrites the lowest operand. -/
  | replace (n : Number)

/-- The effect of an instruction. -/
structure Effect where
  next : Next := .advance
  cleanup : Nat := 0
  emit : Emit := .nothing

namespace Effect

def discard (cleanup : Nat) : Effect := { cleanup }

def push (cleanup : Nat) (v : Value) : Effect := { cleanup, emit := .push v }

def replace (cleanup : Nat) (n : Number) : Effect := { cleanup, emit := .replace n }

def jump (cleanup : Nat) (distance : Int) : Effect := { next := .jump distance, cleanup }

def settle (e : Effect) : Action Unit :=
  match e.emit with
  | .nothing => Action.discard e.cleanup
  | .push v => do
    Action.discard e.cleanup
    Action.push v
  | .replace n => do
    Action.discard (e.cleanup - 1)
    Action.reshape fun s => s.setTop (.ofNumber n)

end Effect

/-- Invokes a command: the values of its name and arguments. -/
abbrev Invoke := List Value → Action Value

namespace Frame

/-! ### Tables -/

def outOfRange {α : Type} (pc : Nat) (table : Table) (index : Nat) : Action α :=
  Action.fault (.malformed (.indexOutOfRange pc table index))

def entry {α : Type} (pc : Nat) (table : Table) (items : List α) (index : Nat) : Action α :=
  match items[index]? with
  | some item => pure item
  | none => outOfRange pc table index

def accessSlot (f : Frame) (pc slot : Nat) (index : Option String) (access : Access) :
    Action Value := do
  let var ← entry pc .locals f.slots slot
  Action.access var index access

/-! ### Operands -/

def integerOf (v : Value) : Action Int64 :=
  match v.integer? with
  | some n => pure n
  | none => Action.fault (.expectedInteger v.str)

def topInteger : Action Int64 := do integerOf (← Action.peek)

def itemsOf (v : Value) : Action (List Value) :=
  match v.items with
  | .ok items => pure items
  | .error e => Action.fault (.list e)

def pick {α : Type} (items : List α) (index : Value) : Action (Option α) :=
  match ListText.resolveIndex index.str items.length with
  | .ok i => pure (ListText.itemAt? items i)
  | .error e => Action.fault (.list e)

/-! ### Variables -/

def storeSlot (f : Frame) (pc slot : Nat) (mode : WriteMode) : Action Effect := do
  let v ← Action.peek
  return .push 1 (← f.accessSlot pc slot none (.write v mode))

/-- Writes the top value to the element of a local variable named below it. -/
def storeElement (f : Frame) (pc slot : Nat) (mode : WriteMode) : Action Effect := do
  let index ← Action.peekText 1
  let v ← Action.peek
  return .push 2 (← f.accessSlot pc slot (some index) (.write v mode))

/-- Writes the top value to the variable named below it, which may have an index. -/
def storeNamed (mode : WriteMode) : Action Effect := do
  let full ← Action.peekText 1
  let v ← Action.peek
  return .push 2 (← Action.accessNamed full (.write v mode))

/-! ### Foreach loops -/

def foreachItems (f : Frame) (pc : Nat) : List ForeachList →
    Action (List (ForeachList × List Value))
  | [] => pure []
  | l :: ls => do
    let items ← itemsOf (← f.accessSlot pc l.listSlot.toNat none .read)
    let rest ← f.foreachItems pc ls
    return (l, items) :: rest

/-- A position in a list, reduced to 64 bits. -/
def position (n : Nat) : Nat := n % UInt64.size

/-- Assigns items to slots, from position `start` on; past the end the empty text. -/
def assignItems (f : Frame) (pc : Nat) (items : List Value) : Nat → List UInt32 → Action Unit
  | _, [] => pure ()
  | start, slot :: slots => do
    let v := items.getD (position start) Value.empty
    let _ ← f.accessSlot pc slot.toNat none (.write v .set)
    f.assignItems pc items (start + 1) slots

def assignAll (f : Frame) (pc iteration : Nat) : List (ForeachList × List Value) → Action Unit
  | [] => pure ()
  | (l, items) :: rest => do
    f.assignItems pc items (iteration * l.varSlots.length) l.varSlots
    f.assignAll pc iteration rest

/-- Some list has items left for an iteration. -/
def hasMore (iteration : Nat) (lists : List (ForeachList × List Value)) : Bool :=
  lists.any fun (l, items) => position (iteration * l.varSlots.length) < items.length

/-- Moves a foreach loop on and tells whether its body should run. -/
def foreachStep (f : Frame) (pc index : Nat) : Action Bool := do
  let info ← entry pc .foreach f.unit.foreachInfos index
  let counter := info.counterSlot.toNat
  let before ← integerOf (← f.accessSlot pc counter none .read)
  let iteration := before + 1
  let _ ← f.accessSlot pc counter none (.write (.ofInt64 iteration) .set)
  let iteration := iteration.toInt.toNat
  let lists ← f.foreachItems pc info.lists
  if hasMore iteration lists then
    f.assignAll pc iteration lists
    return true
  else return false

def foreachStart (f : Frame) (pc index : Nat) : Action Effect := do
  let info ← entry pc .foreach f.unit.foreachInfos index
  let _ ← f.accessSlot pc info.counterSlot.toNat none (.write (.int (-1)) .set)
  return .discard 0

/-! ### Operators -/

def logical (symbol : String) (op : Bool → Bool → Bool) : Action Effect := do
  let a ← Action.ofExcept (Operator.truth (← Action.peekAt 1) symbol)
  let b ← Action.ofExcept (Operator.truth (← Action.peekAt 0) symbol)
  return .replace 2 (.ofBool (op a b))

def comparison (r : Relation) : Action Effect := do
  let a ← Action.peekAt 1
  let b ← Action.peekAt 0
  return .replace 2 (.ofBool (Operator.holds r (Operator.compare a b)))

def binary (op : BinaryOp) : Action Effect := do
  let a ← Action.ofExcept (Operator.operand (← Action.peekAt 1) op.symbol)
  let b ← Action.ofExcept (Operator.operand (← Action.peekAt 0) op.symbol)
  return .replace 2 (← Action.ofExcept (Operator.binary op a b))

def unary (op : Opcode) : Action Effect := do
  let a ← Action.ofExcept (Operator.operand (← Action.peek) op.symbol)
  return .replace 1 (← Action.ofExcept (Operator.unary op.unary op.symbol a))

/-- A number in place of a top value that has a numeric view and another representation. -/
def tryNumeric : Action Effect := do
  let v ← Action.peek
  if v.isNumeric then return .discard 0
  else match v.number with
    | .ok n => return .replace 1 n
    | .error .tooLarge => Action.fault .integerTooLarge
    | .error .doubleTooLarge => Action.fault .floatOverflow
    | .error _ => return .discard 0

def textEquality (wanted : Bool) : Action Effect := do
  let a ← Action.peekText 1
  let b ← Action.peekText 0
  return .replace 2 (.ofBool ((a == b) == wanted))

def textOrder : Action Effect := do
  let a ← Action.peekText 1
  let b ← Action.peekText 0
  let order : Int32 := match Operator.compareTexts a.toList b.toList with
    | .lt => -1
    | .eq => 0
    | .gt => 1
  return .replace 2 (.int order)

def count (n : Nat) : Number := .ofInt64 (Int64.ofNat n)

/-! ### Jumps -/

def jumpIf (wanted : Bool) (distance : Int) : Action Effect := do
  let v ← Action.peek
  match v.truth? with
  | none => Action.fault (.expectedBoolean v.str)
  | some b => return if b == wanted then .jump 1 distance else .discard 1

/-! ### Math functions -/

def callBuiltin (f : MathFunction) (args : List Value) : Action Number := fun m =>
  let (outcome, seed) := f.call args m.clock m.seed
  match outcome with
  | .ok n => (.ok n, { m with seed })
  | .error e => (.error (.exception (.ofFault e)), { m with seed })

/-- The sum of numbers: of doubles when there is one, else of integers. -/
def sum (ns : List Number) : Number :=
  if ns.any Number.isDouble then
    .double (.ofFloat (ns.foldl (fun x n => x + n.toFloat) 0))
  else .ofInt64 (ns.foldl (fun x n => x + n.toInt64?.getD 0) 0)

def callBody (body : FunctionBody) (args : List Number) : Except Exception Number :=
  match body with
  | .echo => .ok (args.headD (.int 0))
  | .sum => .ok (sum args)
  | .raise code v => match Code.ofNumber? code with
    | none => .ok (.int 0)
    | some code => .error (.complete code v)

/-- A loop exit that leaves what has no loop around it is an error. -/
def outsideLoop (e : Exception) : Exception :=
  match e.code.loopExit? with
  | some exit => .ofFault (.outsideLoop exit)
  | none => e

def callUser (f : UserFunction) (args : List Value) : Action Number := do
  let args ← Action.ofExcept (MathFunction.convertAll f.args args)
  match callBody f.body args with
  | .ok n => return n
  | .error e => Action.raise (outsideLoop e)

/-- Calls a function by name: a registered one before a built-in one. -/
def callNamed (name : String) (args : List Value) : Action Number := do
  match ← Action.read fun m => m.functions.lookup name with
  | some f => callUser f args
  | none => match MathFunction.ofName? name with
    | some f => callBuiltin f args
    | none => Action.fault (.unknownMathFunction name)

def callIndex (i : Instruction) : Action Effect := do
  let args ← Action.top i.pops
  match MathFunction.ofIndex? i.index with
  | some f => return .push i.pops (.ofNumber (← callBuiltin f args))
  | none => Action.fault (.unknownMathFunction ("#" ++ toString i.index))

/-- Calls the function that the lowest of the top `n` values names. -/
def callStacked (n : Nat) : Action Effect := do
  match ← Action.top n with
  | [] => Action.fault .tooFewMathArgs
  | name :: args => return .push n (.ofNumber (← callNamed name.str args))

/-! ### The steps -/

def step (invoke : Invoke) (f : Frame) (pc : Nat) (i : Instruction) : Action Effect :=
  let n := i.index
  match i.opcode with
  | .done => return { next := .done }
  | .push1 | .push4 => return .push 0 (← entry pc .literals f.unit.literals n)
  | .pop => return .discard 1
  | .dup => return .push 0 (← Action.peek)
  | .over => return .push 0 (← Action.peekAt n)
  | .concat1 => do
    let vs ← Action.top n
    return .push n (.text (String.join (Value.strs vs)))
  | .invokeStk1 | .invokeStk4 => do
    let argv ← Action.top n
    return .push n (← invoke argv)
  | .loadScalar1 | .loadScalar4 => return .push 0 (← f.accessSlot pc n none .read)
  | .loadScalarStk => do
    let name ← Action.peekText 0
    return .push 1 (← Action.accessParts name none .read)
  | .loadArray1 | .loadArray4 => do
    let index ← Action.peekText 0
    return .push 1 (← f.accessSlot pc n (some index) .read)
  | .loadArrayStk => do
    let name ← Action.peekText 1
    let index ← Action.peekText 0
    return .push 2 (← Action.accessParts name (some index) .read)
  | .loadStk => do
    let full ← Action.peekText 0
    return .push 1 (← Action.accessNamed full .read)
  | .storeScalar1 | .storeScalar4 => f.storeSlot pc n .set
  | .storeScalarStk => do
    let name ← Action.peekText 1
    let v ← Action.peek
    return .push 2 (← Action.accessParts name none (.write v .set))
  | .storeArray1 | .storeArray4 => f.storeElement pc n .set
  | .storeArrayStk => do
    let name ← Action.peekText 2
    let index ← Action.peekText 1
    let v ← Action.peek
    return .push 3 (← Action.accessParts name (some index) (.write v .set))
  | .storeStk => storeNamed .set
  | .incrScalar1 => do
    let amount ← topInteger
    return .push 1 (← f.accessSlot pc n none (.increment amount))
  | .incrScalarStk => do
    let amount ← topInteger
    let name ← Action.peekText 1
    return .push 2 (← Action.accessParts name none (.increment amount))
  | .incrScalar1Imm =>
    return .push 0 (← f.accessSlot pc n none (.increment (Int64.ofInt (i.operand 1))))
  | .incrScalarStkImm => do
    let name ← Action.peekText 0
    return .push 1 (← Action.accessParts name none (.increment (Int64.ofInt (i.operand 0))))
  | .incrArray1 => do
    let amount ← topInteger
    let index ← Action.peekText 1
    return .push 2 (← f.accessSlot pc n (some index) (.increment amount))
  | .incrArrayStk => do
    let amount ← topInteger
    let name ← Action.peekText 2
    let index ← Action.peekText 1
    return .push 3 (← Action.accessParts name (some index) (.increment amount))
  | .incrArray1Imm => do
    let index ← Action.peekText 0
    return .push 1 (← f.accessSlot pc n (some index) (.increment (Int64.ofInt (i.operand 1))))
  | .incrArrayStkImm => do
    let name ← Action.peekText 1
    let index ← Action.peekText 0
    let amount := Int64.ofInt (i.operand 0)
    return .push 2 (← Action.accessParts name (some index) (.increment amount))
  | .appendScalar1 | .appendScalar4 => f.storeSlot pc n .append
  | .appendArray1 => f.storeElement pc n .append
  | .appendStk => storeNamed .append
  | .lappendScalar1 | .lappendScalar4 => f.storeSlot pc n .listAppend
  | .lappendArray1 => f.storeElement pc n .listAppend
  | .lappendStk => storeNamed .listAppend
  | .jump1 | .jump4 => return .jump 0 (i.operand 0)
  | .jumpTrue1 | .jumpTrue4 => jumpIf true (i.operand 0)
  | .jumpFalse1 | .jumpFalse4 => jumpIf false (i.operand 0)
  | .lor => logical (Opcode.symbol .lor) or
  | .land => logical (Opcode.symbol .land) and
  | .bitor => binary .bitor
  | .bitxor => binary .bitxor
  | .bitand => binary .bitand
  | .eq => comparison .eq
  | .neq => comparison .neq
  | .lt => comparison .lt
  | .gt => comparison .gt
  | .le => comparison .le
  | .ge => comparison .ge
  | .lshift => binary .lshift
  | .rshift => binary .rshift
  | .add => binary .add
  | .sub => binary .sub
  | .mult => binary .mult
  | .div => binary .div
  | .mod => binary .mod
  | .uplus => unary .uplus
  | .uminus => unary .uminus
  | .bitnot => unary .bitnot
  | .not => do
    let b ← Action.ofExcept (Operator.truth (← Action.peek) (Opcode.symbol .not))
    return .replace 1 (.ofBool (!b))
  | .callBuiltinFunc1 => callIndex i
  | .callFunc1 => callStacked n
  | .tryCvtToNumeric => tryNumeric
  | .breakLoop => Action.raise (.complete .breakLoop Value.empty)
  | .continueLoop => Action.raise (.complete .continueLoop Value.empty)
  | .foreachStart4 => f.foreachStart pc n
  | .foreachStep4 => return .push 0 (.ofBool (← f.foreachStep pc n))
  | .beginCatch4 => do
    let _ ← entry pc .ranges f.unit.ranges n
    return .discard 0
  | .endCatch => return .discard 0
  | .pushResult => return .push 0 (← Action.read Machine.result)
  | .pushReturnCode => return .push 0 (.int f.lastCode)
  | .strEq => textEquality true
  | .strNeq => textEquality false
  | .strCmp => textOrder
  | .strLen => do
    let text ← Action.peekText 0
    return .replace 1 (count text.length)
  | .strIndex => do
    let chars := (← Action.peekText 1).toList
    let found ← pick chars (← Action.peek)
    return .push 2 (.text (String.ofList found.toList))
  | .list => do
    let vs ← Action.top n
    return .push n (.list vs)
  | .listLength => do
    let items ← itemsOf (← Action.peek)
    return .replace 1 (count items.length)
  | .listIndex => do
    let items ← itemsOf (← Action.peekAt 1)
    let found ← pick items (← Action.peek)
    return .push 2 (found.getD Value.empty)
  | .returnValue => do Action.raise (.complete .returnValue (← Action.peek))

/-- The frame after an instruction, with the heights saved or forgotten. -/
def saveHeight (f : Frame) (i : Instruction) (height : Nat) : Frame :=
  match i.opcode with
  | .beginCatch4 => { f with catchHeights := height :: f.catchHeights }
  | .endCatch => { f with catchHeights := f.catchHeights.drop 1 }
  | _ => f

end Frame

end CommandVM
