import CommandVM.Listing.Token

/-!
# Disassembly

The canonical listing of a unit: a directive for each entry of its tables, then its code, with a
label line before each offset that something refers to. Operands are written as numbers, so that
tables with equal entries survive; a jump goes to a label unless it lands inside an instruction.
-/

namespace CommandVM.Listing

def offsetLabel (offset : Nat) : String := "L" ++ toString offset

def rangeTargets (r : ExceptionRange) : List (String × Nat) :=
  let target (key : String) (offset : Option UInt32) : List (String × Nat) :=
    (offset.map fun o => (key, o.toNat)).toList
  target "break" r.breakTarget ++ target "continue" r.continueTarget ++ target "catch" r.catchTarget

def rangeLine (r : ExceptionRange) : String :=
  ".range " ++ r.kind.name ++ " " ++ offsetLabel r.start.toNat ++ " " ++ offsetLabel r.stop ++
    String.join ((rangeTargets r).map fun (key, offset) => " " ++ key ++ "=" ++ offsetLabel offset)

/-- The offset after the last byte of a command, reduced to 32 bits. -/
def commandStop (c : CommandLocation) : Nat := (c.codeStart + c.codeSize).toNat

theorem commandStop_eq {c : CommandLocation}
    (fits : c.codeStart.toNat + c.codeSize.toNat < UInt32.size) :
    commandStop c = c.codeStart.toNat + c.codeSize.toNat :=
  (UInt32.toNat_add _ _).trans (Nat.mod_eq_of_lt fits)

def commandLine (c : CommandLocation) : String :=
  ".cmd " ++ offsetLabel c.codeStart.toNat ++ " " ++ offsetLabel (commandStop c) ++ " " ++
    toString c.sourceStart.toNat ++ " " ++ toString c.sourceSize.toNat

def foreachListText (l : ForeachList) : String :=
  " list=" ++ toString l.listSlot.toNat ++ ":" ++
    String.intercalate "," (l.varSlots.map fun v => toString v.toNat)

def foreachLine (f : ForeachInfo) : String :=
  ".foreach counter=" ++ toString f.counterSlot.toNat ++ String.join (f.lists.map foreachListText)

def tableLines (u : CompiledUnit) : List String :=
  (u.source.map fun text => ".source " ++ quoted text).toList ++
    [".maxstack " ++ toString u.maxStack.toNat] ++
    u.locals.map (fun name => ".local " ++ quoted name) ++
    u.literals.map (fun v => ".literal " ++ quoted v.str) ++
    u.foreachInfos.map foreachLine ++ u.ranges.map rangeLine ++ u.commands.map commandLine

/-- The offset that a jump is shown to go to: the start of an instruction or the end of the code. -/
def shownTarget? (boundaries : List Nat) (offset : Nat) (i : Instruction) : Option Nat :=
  match i.jumpTarget? offset with
  | some target =>
    if 0 ≤ target && boundaries.contains target.toNat then some target.toNat else none
  | none => none

/-- The offsets that the tables refer to. -/
def tableOffsets (u : CompiledUnit) : List Nat :=
  u.ranges.flatMap (fun r => r.start.toNat :: r.stop :: (rangeTargets r).map Prod.snd) ++
    u.commands.flatMap fun c => [c.codeStart.toNat, commandStop c]

def instructionLine (boundaries : List Nat) (offset : Nat) (i : Instruction) : String :=
  match shownTarget? boundaries offset i with
  | some target => i.opcode.mnemonic ++ " " ++ offsetLabel target
  | none => i.text

/-- The line that defines the label of an offset, if something refers to it. -/
def labelLine (referenced : List Nat) (offset : Nat) : List String :=
  if referenced.contains offset then [offsetLabel offset ++ ":"] else []

def disassemble (u : CompiledUnit) : Except DecodeError String :=
  match Instruction.decodeAll u.code with
  | .error e => .error e
  | .ok instructions =>
    let boundaries := instructions.map Prod.fst ++ [u.code.length]
    let referenced := tableOffsets u ++
      instructions.filterMap fun (offset, i) => shownTarget? boundaries offset i
    let code := instructions.flatMap fun (offset, i) =>
      labelLine referenced offset ++ [instructionLine boundaries offset i]
    let lines := tableLines u ++ code ++ labelLine referenced u.code.length
    .ok (String.join (lines.map (· ++ "\n")))

end CommandVM.Listing
