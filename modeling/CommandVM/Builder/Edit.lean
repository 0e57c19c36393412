import CommandVM.Builder.History

/-!
# Edits

The operations on a builder, one change after the other. An edit that fails keeps what it has
changed before, so each operation has to make its checks first.
-/

namespace CommandVM.Builder

/-- Changes to a builder that may break off. -/
abbrev Edit := ExceptT BuildError (StateM Builder)

namespace Edit

def tell (change : Builder → Nat × Builder) : Edit Nat := modifyGet change

def checkOperands (offset : Nat) (opcode : Opcode) : List (OperandKind × Int) → Edit Unit
  | [] => pure ()
  | (kind, value) :: rest =>
    if kind.fits value then checkOperands offset opcode rest
    else throw (.operandOutOfRange offset opcode value)

def emit (opcode : Opcode) (operands : List Int) : Edit Nat := do
  let kinds := opcode.operands
  if operands.length ≠ kinds.length then
    throw (.operandCount opcode kinds.length operands.length)
  let offset := (← get).offset
  checkOperands offset opcode (kinds.zip operands)
  let i : Instruction := { opcode, operands }
  modify fun b => { b with code := b.code ++ i.encode }
  modify fun b => b.track i
  return offset

def jump (opcode : Opcode) (label : Nat) : Edit Nat := do
  if !opcode.isJump then throw (.notAJump opcode)
  let offset ← emit opcode [0]
  let fixup : Fixup := { offset, label, kind := distanceKind opcode }
  modify fun b => { b with fixups := b.fixups ++ [fixup] }
  modify fun b => b.seed label
  return offset

def push (text : String) : Edit Nat := do
  let index ← tell (·.literal text)
  if index < 256 then emit .push1 [index] else emit .push4 [index]

/-- Binds a label, then takes over its depth. -/
def bind (label : Nat) : Edit Unit := do
  if ((← get).labelOffset? label).isSome then throw (.labelRebound label)
  modify fun b => b.place label
  match (← get).labels[label]?.bind Label.depth with
  | some d => modify fun b => { b with depth := if b.reachable then max b.depth d else d }
  | none => pure ()
  modify fun b => { b with reachable := true }

def close (region : Nat) (stop : Option Nat) : Edit Unit := do
  match stop with
  | none => throw (.notOpen region)
  | some stop =>
    if ((← get).labelOffset? stop).isSome then throw (.notOpen region)
    modify fun b => b.place stop

def perform : Op → Edit (Option Nat)
  | .setSource text => do modify (·.setSource text); return none
  | .literal text => some <$> tell (·.literal text)
  | .addLiteral value => some <$> tell (·.addLiteral value)
  | .localSlot name => some <$> tell (·.localSlot name)
  | .addLocal name => some <$> tell (·.addLocal name)
  | .addForeach info => some <$> tell (·.addForeach info)
  | .setMaxStack depth => do modify (·.setMaxStack depth); return none
  | .newLabel => some <$> tell (·.newLabel)
  | .bind label => do bind label; return none
  | .emit opcode operands => some <$> emit opcode operands
  | .jump opcode label => some <$> jump opcode label
  | .push text => some <$> push text
  | .addRange kind start stop => some <$> tell (·.addRange kind start stop)
  | .beginRange kind => some <$> tell (·.beginRange kind)
  | .endRange range => do
    close range ((← get).ranges[range]?.map PendingRange.stop)
    return none
  | .setBreak range label => do modify (·.setBreak range label); return none
  | .setContinue range label => do modify (·.setContinue range label); return none
  | .setCatch range label => do modify (·.setCatch range label); return none
  | .addCommand start stop sourceStart sourceSize =>
    some <$> tell (·.addCommand start stop sourceStart sourceSize)
  | .beginCommand sourceStart sourceSize => some <$> tell (·.beginCommand sourceStart sourceSize)
  | .endCommand command => do
    close command ((← get).commands[command]?.map PendingCommand.stop)
    return none

end Edit

/-- Performs an operation, whether it fails or not: its answer, and the builder that it leaves. -/
def attempt (b : Builder) (op : Op) : Answer × Builder := (Edit.perform op).run.run b

/-- Each operation with its answer, and the builder that all of them leave. -/
def transcript (b : Builder) : List Op → List (Op × Answer) × Builder
  | [] => ([], b)
  | op :: ops =>
    let (answer, next) := b.attempt op
    let (entries, last) := next.transcript ops
    ((op, answer) :: entries, last)

/-- The operation checks what it is given and may refuse it. -/
def Op.mayRefuse : Op → Bool
  | .emit _ _ | .jump _ _ | .bind _ | .endRange _ | .endCommand _ => true
  | _ => false

def refused (entry : Op × Answer) : Bool := entry.1.mayRefuse && !entry.2.isOk

end CommandVM.Builder
