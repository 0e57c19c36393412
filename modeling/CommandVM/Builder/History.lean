import CommandVM.Builder

/-!
# Histories of builders

A builder is driven by operations. One that fails leaves the builder as it is. A history keeps each
operation together with the builder that it was applied to.
-/

namespace CommandVM.Builder

inductive Op where
  | setSource (text : String)
  | literal (text : String)
  | addLiteral (value : Value)
  | localSlot (name : String)
  | addLocal (name : String)
  | addForeach (info : ForeachInfo)
  | setMaxStack (depth : UInt32)
  | newLabel
  | bind (label : Nat)
  | emit (opcode : Opcode) (operands : List Int)
  | jump (opcode : Opcode) (label : Nat)
  | push (text : String)
  | addRange (kind : RangeKind) (start stop : Nat)
  | beginRange (kind : RangeKind)
  | endRange (range : Nat)
  | setBreak (range label : Nat)
  | setContinue (range label : Nat)
  | setCatch (range label : Nat)
  | addCommand (start stop : Nat) (sourceStart sourceSize : UInt32)
  | beginCommand (sourceStart sourceSize : UInt32)
  | endCommand (command : Nat)

/-- What an operation tells: an offset, an index or a handle, nothing, or why it failed. -/
abbrev Answer := Except BuildError (Option Nat)

def telling (b : Builder) : Except BuildError (Nat × Builder) → Answer × Builder
  | .ok (n, after) => (.ok (some n), after)
  | .error e => (.error e, b)

def silent (b : Builder) : Except BuildError Builder → Answer × Builder
  | .ok after => (.ok none, after)
  | .error e => (.error e, b)

def apply (b : Builder) : Op → Answer × Builder
  | .setSource text => b.silent (.ok (b.setSource text))
  | .literal text => b.telling (.ok (b.literal text))
  | .addLiteral value => b.telling (.ok (b.addLiteral value))
  | .localSlot name => b.telling (.ok (b.localSlot name))
  | .addLocal name => b.telling (.ok (b.addLocal name))
  | .addForeach info => b.telling (.ok (b.addForeach info))
  | .setMaxStack depth => b.silent (.ok (b.setMaxStack depth))
  | .newLabel => b.telling (.ok b.newLabel)
  | .bind label => b.silent (b.bind label)
  | .emit opcode operands => b.telling (b.emit opcode operands)
  | .jump opcode label => b.telling (b.jump opcode label)
  | .push text => b.telling (b.push text)
  | .addRange kind start stop => b.telling (.ok (b.addRange kind start stop))
  | .beginRange kind => b.telling (.ok (b.beginRange kind))
  | .endRange range => b.silent (b.endRange range)
  | .setBreak range label => b.silent (.ok (b.setBreak range label))
  | .setContinue range label => b.silent (.ok (b.setContinue range label))
  | .setCatch range label => b.silent (.ok (b.setCatch range label))
  | .addCommand start stop sourceStart sourceSize =>
    b.telling (.ok (b.addCommand start stop sourceStart sourceSize))
  | .beginCommand sourceStart sourceSize =>
    b.telling (.ok (b.beginCommand sourceStart sourceSize))
  | .endCommand command => b.silent (b.endCommand command)

/-- An operation and the builder that it is applied to. -/
structure Step where
  before : Builder
  op : Op

namespace Step

def answer (s : Step) : Answer := (s.before.apply s.op).1

def after (s : Step) : Builder := (s.before.apply s.op).2

end Step

def run (b : Builder) : List Op → Builder
  | [] => b
  | op :: ops => run (b.apply op).2 ops

def history (b : Builder) : List Op → List Step
  | [] => []
  | op :: ops => ⟨b, op⟩ :: history (b.apply op).2 ops

end CommandVM.Builder
