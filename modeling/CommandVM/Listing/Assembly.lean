import CommandVM.Listing.Token
import CommandVM.Text.Lines

/-!
# Assembly

A line of a listing may define a label, and then holds a directive, an instruction or nothing.
Labels may be used before the line that defines them.
-/

namespace CommandVM.Listing

structure LabelUse where
  name : String
  label : Nat
  defined : Bool
  firstLine : Nat
deriving Repr, DecidableEq

/-- The unit under construction, its labels, and the line of each instruction by its offset. -/
structure Assembly where
  builder : Builder := {}
  labels : List LabelUse := []
  lines : List (Nat × Nat) := []

def unexpected (t : Token) : Problem := .unexpectedToken t.text

namespace Assembly

/-- The label with a name, which is made when it is new. -/
def label (name : String) (line : Nat) (a : Assembly) : Nat × Assembly :=
  match a.labels.find? (·.name == name) with
  | some use => (use.label, a)
  | none =>
    let (label, builder) := a.builder.newLabel
    let use : LabelUse := { name, label, defined := false, firstLine := line }
    (label, { a with builder, labels := a.labels ++ [use] })

def define (name : String) (line : Nat) (a : Assembly) : Except Problem Assembly :=
  let (label, a) := a.label name line
  if a.labels.any fun use => use.name == name && use.defined then .error (.duplicateLabel name)
  else match a.builder.bind label with
    | .error e => .error (.build e)
    | .ok builder =>
      let labels := a.labels.map fun use =>
        if use.name == name then { use with defined := true } else use
      .ok { a with builder, labels }

/-- The slot written as a number or as the name of a local variable. -/
def slot (text : List Char) (a : Assembly) : UInt32 × Assembly :=
  match Text.uint32? text with
  | some n => (UInt32.ofNat n, a)
  | none =>
    let (slot, builder) := a.builder.localSlot (String.ofList text)
    (UInt32.ofNat slot, { a with builder })

def slots : List (List Char) → Assembly → List UInt32 × Assembly
  | [], a => ([], a)
  | text :: texts, a =>
    let (slot, a) := a.slot text
    let (rest, a) := slots texts a
    (slot :: rest, a)

end Assembly

/-! ### Arguments -/

def checkArity (args : List Token) (expected : Nat) (name : String) : Except Problem Unit :=
  if args.length < expected then .error (.missingArgument name expected)
  else match args[expected]? with
    | some extra => .error (unexpected extra)
    | none => .ok ()

def stringArg : Token → Except Problem String
  | .str s => .ok s
  | t => .error (unexpected t)

def nameArg : Token → Except Problem String
  | .word w => .ok w
  | .str s => .ok s
  | t => .error (unexpected t)

def wordArg : Token → Except Problem UInt32
  | .number n =>
    if 0 ≤ n && n < UInt32.size then .ok (UInt32.ofNat n.toNat)
    else .error (.invalidNumber (toString n))
  | t => .error (unexpected t)

def labelArg (line : Nat) (t : Token) (a : Assembly) : Except Problem (Nat × Assembly) :=
  match t with
  | .word name => .ok (a.label name line)
  | t => .error (unexpected t)

def cutAt? (mark : Char) (cs : List Char) : Option (List Char × List Char) :=
  match cs.dropWhile (· != mark) with
  | [] => none
  | _ :: rest => some (cs.takeWhile (· != mark), rest)

def pairArg (t : Token) : Except Problem (String × List Char) :=
  match t with
  | .word w => match cutAt? '=' w.toList with
    | some (key, value) => .ok (String.ofList key, value)
    | none => .error (unexpected t)
  | t => .error (unexpected t)

/-- The pieces of a text between commas, less the empty ones. -/
def commaPieces (cs : List Char) : List (List Char) :=
  (cs.foldr (fun c pieces =>
    if c == ',' then [] :: pieces
    else match pieces with
      | [] => [[c]]
      | piece :: rest => (c :: piece) :: rest) [[]]).filter (!·.isEmpty)

/-! ### Instructions -/

/-- The value of an operand: a number, the literal of a string that is pushed, or the slot of a
named local variable. -/
def operand (opcode : Opcode) (first : Bool) (t : Token) (a : Assembly) :
    Except Problem (Int × Assembly) :=
  let pushesLiteral := opcode == .push1 || opcode == .push4
  match t with
  | .number n => .ok (n, a)
  | .str text =>
    if first && pushesLiteral then
      let (index, builder) := a.builder.literal text
      .ok (index, { a with builder })
    else if first && opcode.takesLocal then
      let (slot, builder) := a.builder.localSlot text
      .ok (slot, { a with builder })
    else .error (unexpected t)
  | .word name =>
    if first && opcode.takesLocal then
      let (slot, builder) := a.builder.localSlot name
      .ok (slot, { a with builder })
    else .error (unexpected t)

/-- The values of operands, where `first` tells whether the first of them comes first. -/
def operands (opcode : Opcode) : Bool → List Token → Assembly →
    Except Problem (List Int × Assembly)
  | _, [], a => .ok ([], a)
  | first, t :: ts, a => do
    let (value, a) ← operand opcode first t a
    let (values, a) ← operands opcode false ts a
    return (value :: values, a)

def built {α : Type} (a : Assembly) : Except BuildError (α × Builder) → Except Problem Assembly
  | .error e => .error (.build e)
  | .ok (_, builder) => .ok { a with builder }

def instruction (line : Nat) (mnemonic : String) (args : List Token) (a : Assembly) :
    Except Problem Assembly :=
  match Opcode.ofMnemonic? mnemonic with
  | none => .error (.unknownOpcode mnemonic)
  | some opcode => do
    checkArity args opcode.operands.length opcode.mnemonic
    let a := { a with lines := a.lines ++ [(a.builder.offset, line)] }
    match opcode.isJump, args with
    | true, .word name :: _ =>
      let (label, a) := a.label name line
      built a (a.builder.jump opcode label)
    | true, .str s :: _ => .error (unexpected (.str s))
    | _, _ =>
      let (values, a) ← operands opcode true args a
      built a (a.builder.emit opcode values)

/-! ### Directives -/

def rangeTarget (line range : Nat) (t : Token) (a : Assembly) : Except Problem Assembly := do
  let (key, target) ← pairArg t
  let (label, a) := a.label (String.ofList target) line
  match key with
  | "break" => return { a with builder := a.builder.setBreak range label }
  | "continue" => return { a with builder := a.builder.setContinue range label }
  | "catch" => return { a with builder := a.builder.setCatch range label }
  | _ => .error (unexpected t)

/-- `.range loop|catch START END`, then targets. -/
def rangeDirective (line : Nat) (args : List Token) (a : Assembly) : Except Problem Assembly :=
  match args with
  | kind :: start :: stop :: targets => do
    let kind ← match kind with
      | .word "loop" => .ok RangeKind.loop
      | .word "catch" => .ok RangeKind.catch
      | t => .error (unexpected t)
    let (start, a) ← labelArg line start a
    let (stop, a) ← labelArg line stop a
    let (range, builder) := a.builder.addRange kind start stop
    targets.foldlM (fun a t => rangeTarget line range t a) { a with builder }
  | _ => .error (.missingArgument ".range" 3)

/-- A list of a foreach loop: `list=TEMP:V1,V2`. -/
def foreachList (t : Token) (a : Assembly) : Except Problem (ForeachList × Assembly) := do
  let (key, spec) ← pairArg t
  if key ≠ "list" then .error (unexpected t)
  else match cutAt? ':' spec with
    | none => .error (unexpected t)
    | some (temp, vars) =>
      let (listSlot, a) := a.slot temp
      let (varSlots, a) := a.slots (commaPieces vars)
      return ({ listSlot, varSlots }, a)

def foreachLists : List Token → Assembly → Except Problem (List ForeachList × Assembly)
  | [], a => .ok ([], a)
  | t :: ts, a => do
    let (list, a) ← foreachList t a
    let (lists, a) ← foreachLists ts a
    return (list :: lists, a)

/-- `.foreach counter=SLOT`, then lists. -/
def foreachDirective (args : List Token) (a : Assembly) : Except Problem Assembly :=
  match args with
  | [] => .error (.missingArgument ".foreach" 1)
  | first :: lists => do
    let (key, slot) ← pairArg first
    if key ≠ "counter" then .error (unexpected first)
    else
      let (counterSlot, a) := a.slot slot
      let (lists, a) ← foreachLists lists a
      return { a with builder := (a.builder.addForeach { counterSlot, lists }).2 }

/-- `.cmd START END SOURCE-OFFSET SOURCE-LENGTH`. -/
def commandDirective (line : Nat) (args : List Token) (a : Assembly) : Except Problem Assembly := do
  checkArity args 4 ".cmd"
  match args with
  | [start, stop, sourceStart, sourceSize] =>
    let (start, a) ← labelArg line start a
    let (stop, a) ← labelArg line stop a
    let sourceStart ← wordArg sourceStart
    let sourceSize ← wordArg sourceSize
    return { a with builder := (a.builder.addCommand start stop sourceStart sourceSize).2 }
  | _ => return a

def onlyArg (name : String) (args : List Token) : Except Problem Token := do
  checkArity args 1 name
  match args with
  | t :: _ => return t
  | [] => .error (.missingArgument name 1)

def directive (line : Nat) (name : String) (args : List Token) (a : Assembly) :
    Except Problem Assembly :=
  match name with
  | ".source" => do
    let text ← stringArg (← onlyArg name args)
    return { a with builder := a.builder.setSource text }
  | ".local" => do
    let variableName ← nameArg (← onlyArg name args)
    return { a with builder := (a.builder.addLocal variableName).2 }
  | ".literal" => do
    let text ← stringArg (← onlyArg name args)
    return { a with builder := (a.builder.addLiteral (.text text)).2 }
  | ".maxstack" => do
    let depth ← wordArg (← onlyArg name args)
    return { a with builder := a.builder.setMaxStack depth }
  | ".range" => rangeDirective line args a
  | ".cmd" => commandDirective line args a
  | ".foreach" => foreachDirective args a
  | _ => .error (.unknownDirective name)

/-! ### Lines and listings -/

def definedLabel? : Token → Option String
  | .word w => match w.toList.reverse with
    | ':' :: name => some (String.ofList name.reverse)
    | _ => none
  | _ => none

def statement (line : Nat) (ts : List Token) (a : Assembly) : Except Problem Assembly :=
  match ts with
  | [] => .ok a
  | .word w :: args =>
    if w.toList.head? == some '.' then directive line w args a else instruction line w args a
  | t :: _ => .error (unexpected t)

def assembleTokens (line : Nat) (ts : List Token) (a : Assembly) : Except Problem Assembly :=
  match ts with
  | [] => .ok a
  | t :: rest => match definedLabel? t with
    | none => statement line ts a
    | some "" => .error (unexpected t)
    | some name => match a.define name line with
      | .error e => .error e
      | .ok a => statement line rest a

def assembleLine (line : Nat) (chars : List Char) (a : Assembly) : Except Problem Assembly :=
  match tokens chars with
  | .error e => .error e
  | .ok ts => assembleTokens line ts a

def assembleLines : Nat → List (List Char) → Assembly → Except Error Assembly
  | _, [], a => .ok a
  | line, chars :: rest, a => match assembleLine line chars a with
    | .error problem => .error { line, problem }
    | .ok a => assembleLines (line + 1) rest a

def firstUndefined (labels : List LabelUse) : Option LabelUse :=
  match labels.filter (!·.defined) with
  | [] => none
  | use :: uses =>
    some (uses.foldl (fun least use => if use.firstLine < least.firstLine then use else least) use)

/-- The line to which a building error at the end belongs: that of the jump, or none. -/
def errorLine (lines : List (Nat × Nat)) : BuildError → Nat
  | .jumpOutOfRange offset _ => (lines.lookup offset).getD 0
  | _ => 0

def finish (a : Assembly) : Except Error CompiledUnit :=
  match firstUndefined a.labels with
  | some use => .error { line := use.firstLine, problem := .undefinedLabel use.name }
  | none => match a.builder.finish with
    | .ok unit => .ok unit
    | .error e => .error { line := errorLine a.lines e, problem := .build e }

def assemble (text : String) : Except Error CompiledUnit :=
  match assembleLines 1 (Text.lines text.toList) {} with
  | .error e => .error e
  | .ok a => finish a

end CommandVM.Listing
