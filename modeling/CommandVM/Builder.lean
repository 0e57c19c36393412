import CommandVM.CompiledUnit
import CommandVM.Instruction

/-!
# Building units

A builder emits instructions and fills tables. Labels stand for offsets that may become known later;
`finish` resolves them. The builder follows the stack depth in the order of emission, which gives
the unit's maximum unless it is set by hand.
-/

namespace CommandVM

/-- Why an instruction is refused or a unit cannot be finished. -/
inductive BuildError where
  | unboundLabel (label : Nat)
  | labelRebound (label : Nat)
  | jumpOutOfRange (offset : Nat) (distance : Int)
  | operandOutOfRange (offset : Nat) (opcode : Opcode) (value : Int)
  | operandCount (opcode : Opcode) (expected found : Nat)
  | notOpen (region : Nat)
  | notAJump (opcode : Opcode)
deriving Repr, DecidableEq

def BuildError.message : BuildError → String
  | .unboundLabel label => s!"label {label} is never bound"
  | .labelRebound label => s!"label {label} bound twice"
  | .jumpOutOfRange offset distance =>
    s!"jump at offset {offset} cannot reach its target ({distance} bytes away)"
  | .operandOutOfRange offset opcode value =>
    let name := opcode.mnemonic
    s!"operand {value} does not fit {name} at offset {offset}"
  | .operandCount opcode expected found =>
    let name := opcode.mnemonic
    s!"{name} takes {expected} operand(s), got {found}"
  | .notOpen region => s!"no open region with handle {region}"
  | .notAJump opcode => opcode.mnemonic ++ " is not a jump instruction"

/-- A label: its offset once it is bound, and the greatest depth of the places that refer to it. -/
structure Label where
  offset : Option Nat := none
  depth : Option Nat := none
deriving Repr, DecidableEq

/-- A jump whose operand waits for a label. -/
structure Fixup where
  offset : Nat
  label : Nat
  kind : OperandKind
deriving Repr, DecidableEq

/-- A range whose bounds and targets are labels. -/
structure PendingRange where
  kind : RangeKind
  start : Nat
  stop : Nat
  breakTarget : Option Nat := none
  continueTarget : Option Nat := none
  catchTarget : Option Nat := none
deriving Repr, DecidableEq

structure PendingCommand where
  start : Nat
  stop : Nat
  sourceStart : UInt32
  sourceSize : UInt32
deriving Repr, DecidableEq

/-- A unit under construction. -/
structure Builder where
  code : List UInt8 := []
  literals : List Value := []
  locals : List String := []
  labels : List Label := []
  fixups : List Fixup := []
  ranges : List PendingRange := []
  commands : List PendingCommand := []
  foreachInfos : List ForeachInfo := []
  depth : Nat := 0
  reachable : Bool := true
  maxDepth : Nat := 0
  maxOverride : Option UInt32 := none
  source : Option String := none

namespace Builder

def offset (b : Builder) : Nat := b.code.length

/-! ### Tables -/

def setSource (b : Builder) (text : String) : Builder := { b with source := some text }

/-- An index in 32 bits, as instructions and tables name it. -/
def narrow (index : Nat) : Nat := index % UInt32.size

def addLiteral (b : Builder) (v : Value) : Nat × Builder :=
  (narrow b.literals.length, { b with literals := b.literals ++ [v] })

/-- The first literal with a text, which is appended when there is none. -/
def literal (b : Builder) (text : String) : Nat × Builder :=
  match b.literals.findIdx? fun v => v.str == text with
  | some i => (narrow i, b)
  | none => b.addLiteral (.text text)

def addLocal (b : Builder) (name : String) : Nat × Builder :=
  (narrow b.locals.length, { b with locals := b.locals ++ [name] })

/-- The first slot of a local variable, which is appended when there is none. -/
def localSlot (b : Builder) (name : String) : Nat × Builder :=
  match b.locals.findIdx? (· == name) with
  | some i => (narrow i, b)
  | none => b.addLocal name

def addForeach (b : Builder) (info : ForeachInfo) : Nat × Builder :=
  (narrow b.foreachInfos.length, { b with foreachInfos := b.foreachInfos ++ [info] })

def setMaxStack (b : Builder) (depth : UInt32) : Builder := { b with maxOverride := some depth }

/-! ### Labels -/

def newLabel (b : Builder) : Nat × Builder :=
  (b.labels.length, { b with labels := b.labels ++ [{}] })

def labelOffset? (b : Builder) (label : Nat) : Option Nat := b.labels[label]?.bind Label.offset

def place (b : Builder) (label : Nat) : Builder :=
  { b with labels := b.labels.modify label fun l => { l with offset := some b.offset } }

/-- Notes that a label is reached with the current depth. -/
def seed (b : Builder) (label : Nat) : Builder :=
  { b with
    labels := b.labels.modify label fun l =>
      { l with depth := some (max (l.depth.getD 0) b.depth) } }

/-- Binds a label here. The depth becomes that of the places that refer to it when control does not
come from above, and the greater of the two when it does. -/
def bind (b : Builder) (label : Nat) : Except BuildError Builder :=
  if (b.labelOffset? label).isSome then .error (.labelRebound label)
  else
    let depth := match b.labels[label]?.bind Label.depth with
      | some d => if b.reachable then max b.depth d else d
      | none => b.depth
    .ok { b.place label with depth, reachable := true }

/-! ### Instructions -/

def track (b : Builder) (i : Instruction) : Builder :=
  let depth := (b.depth - i.pops) + i.pushes
  { b with
    depth
    maxDepth := max b.maxDepth depth
    reachable := b.reachable && !i.opcode.isTerminal }

def emit (b : Builder) (opcode : Opcode) (operands : List Int) :
    Except BuildError (Nat × Builder) :=
  let kinds := opcode.operands
  if operands.length ≠ kinds.length then
    .error (.operandCount opcode kinds.length operands.length)
  else match (kinds.zip operands).find? fun (kind, value) => !kind.fits value with
    | some (_, value) => .error (.operandOutOfRange b.offset opcode value)
    | none =>
      let i : Instruction := { opcode, operands }
      .ok (b.offset, { b with code := b.code ++ i.encode }.track i)

def distanceKind (opcode : Opcode) : OperandKind := opcode.operands.headD .i4

def jump (b : Builder) (opcode : Opcode) (label : Nat) : Except BuildError (Nat × Builder) :=
  if !opcode.isJump then .error (.notAJump opcode)
  else match b.emit opcode [0] with
    | .error e => .error e
    | .ok (offset, b) =>
      let fixup : Fixup := { offset, label, kind := distanceKind opcode }
      .ok (offset, { b with fixups := b.fixups ++ [fixup] }.seed label)

/-- Pushes a literal with the narrowest instruction. -/
def push (b : Builder) (text : String) : Except BuildError (Nat × Builder) :=
  let (index, b) := b.literal text
  if index < 256 then b.emit .push1 [index] else b.emit .push4 [index]

/-! ### Ranges and commands -/

def addRange (b : Builder) (kind : RangeKind) (start stop : Nat) : Nat × Builder :=
  (b.ranges.length, { b with ranges := b.ranges ++ [{ kind, start, stop }] })

def beginRange (b : Builder) (kind : RangeKind) : Nat × Builder :=
  let (start, b) := b.newLabel
  let (stop, b) := b.newLabel
  (b.place start).addRange kind start stop

/-- Closes the region with a handle at its last label, which must not be bound. -/
def close (b : Builder) (region : Nat) (stop : Option Nat) : Except BuildError Builder :=
  match stop with
  | none => .error (.notOpen region)
  | some stop =>
    if (b.labelOffset? stop).isSome then .error (.notOpen region) else .ok (b.place stop)

def endRange (b : Builder) (range : Nat) : Except BuildError Builder :=
  b.close range (b.ranges[range]?.map PendingRange.stop)

def setBreak (b : Builder) (range label : Nat) : Builder :=
  { b with ranges := b.ranges.modify range ({ · with breakTarget := some label }) }.seed label

def setContinue (b : Builder) (range label : Nat) : Builder :=
  { b with ranges := b.ranges.modify range ({ · with continueTarget := some label }) }.seed label

def setCatch (b : Builder) (range label : Nat) : Builder :=
  { b with ranges := b.ranges.modify range ({ · with catchTarget := some label }) }.seed label

def addCommand (b : Builder) (start stop : Nat) (sourceStart sourceSize : UInt32) : Nat × Builder :=
  let command : PendingCommand := { start, stop, sourceStart, sourceSize }
  (b.commands.length, { b with commands := b.commands ++ [command] })

def beginCommand (b : Builder) (sourceStart sourceSize : UInt32) : Nat × Builder :=
  let (start, b) := b.newLabel
  let (stop, b) := b.newLabel
  (b.place start).addCommand start stop sourceStart sourceSize

def endCommand (b : Builder) (command : Nat) : Except BuildError Builder :=
  b.close command (b.commands[command]?.map PendingCommand.stop)

/-! ### Finishing -/

/-- The offset of a label, reduced to 32 bits. -/
def resolve (b : Builder) (label : Nat) : Except BuildError UInt32 :=
  match b.labelOffset? label with
  | some offset => .ok (UInt32.ofNat offset)
  | none => .error (.unboundLabel label)

def resolveTarget (b : Builder) : Option Nat → Except BuildError (Option UInt32)
  | none => .ok none
  | some label => (b.resolve label).map some

/-- Some bytes in place of those at `offset`. -/
def patch (code : List UInt8) (offset : Nat) (bytes : List UInt8) : List UInt8 :=
  code.take offset ++ bytes ++ code.drop (offset + bytes.length)

def applyFixup (b : Builder) (code : List UInt8) (fixup : Fixup) :
    Except BuildError (List UInt8) := do
  let target ← b.resolve fixup.label
  let distance : Int := (target.toNat : Int) - fixup.offset
  if fixup.kind.fits distance then
    return patch code (fixup.offset + 1) (Instruction.encodeOperand fixup.kind distance)
  else .error (.jumpOutOfRange fixup.offset distance)

def resolveRange (b : Builder) (r : PendingRange) : Except BuildError ExceptionRange := do
  let start ← b.resolve r.start
  let stop ← b.resolve r.stop
  let breakTarget ← b.resolveTarget r.breakTarget
  let continueTarget ← b.resolveTarget r.continueTarget
  let catchTarget ← b.resolveTarget r.catchTarget
  let size := UInt32.ofNat (stop.toNat - start.toNat)
  return { kind := r.kind, level := 0, start, size, breakTarget, continueTarget, catchTarget }

def levelAmong (earlier : List ExceptionRange) (r : ExceptionRange) : Nat :=
  (earlier.filter (·.encloses r)).length

/-- Ranges with their levels, after the ranges listed before them. -/
def withLevels (earlier : List ExceptionRange) : List ExceptionRange → List ExceptionRange
  | [] => []
  | r :: rest =>
    { r with level := UInt32.ofNat (levelAmong earlier r) } :: withLevels (earlier ++ [r]) rest

def resolveCommand (b : Builder) (c : PendingCommand) : Except BuildError CommandLocation := do
  let start ← b.resolve c.start
  let stop ← b.resolve c.stop
  return { codeStart := start, codeSize := UInt32.ofNat (stop.toNat - start.toNat),
           sourceStart := c.sourceStart, sourceSize := c.sourceSize }

def finish (b : Builder) : Except BuildError CompiledUnit := do
  let code ← b.fixups.foldlM b.applyFixup b.code
  let ranges ← b.ranges.mapM b.resolveRange
  let commands ← b.commands.mapM b.resolveCommand
  return { code, literals := b.literals, ranges := withLevels [] ranges,
           maxStack := b.maxOverride.getD (UInt32.ofNat b.maxDepth), locals := b.locals,
           foreachInfos := b.foreachInfos, commands, source := b.source }

end Builder

end CommandVM
