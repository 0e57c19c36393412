import CommandVM.Bytes
import CommandVM.CompiledUnit
import CommandVM.DecodeError
import CommandVM.Digest.Blake3

/-!
# Containers

A container is the binary form of a compiled unit: a magic word, the tables with their counts, and a
digest of all bytes before it. The digest is a parameter of the format.
-/

namespace CommandVM.Container

def magic : List UInt8 := [0x51, 0x42, 0x43, 0x31]

def digestSize : Nat := 32

/-- The word for an absent target. -/
def noTarget : UInt32 := 0xffffffff

/-! ### Writing -/

def putWord (w : UInt32) : List UInt8 := Bytes.littleEndian 4 w.toNat

/-- A count, reduced to 32 bits. -/
def putCount (n : Nat) : List UInt8 := Bytes.littleEndian 4 (n % UInt32.size)

def putString (s : String) : List UInt8 :=
  putCount s.toUTF8.size ++ s.toUTF8.toList

def putTarget (target : Option UInt32) : List UInt8 := putWord (target.getD noTarget)

def putTable {α : Type} (put : α → List UInt8) (items : List α) : List UInt8 :=
  putCount items.length ++ items.flatMap put

def kindByte : RangeKind → UInt8
  | .loop => 0
  | .catch => 1

def putRange (r : ExceptionRange) : List UInt8 :=
  kindByte r.kind :: putWord r.level ++ putWord r.start ++ putWord r.size ++
    putTarget r.breakTarget ++ putTarget r.continueTarget ++ putTarget r.catchTarget

def putForeachList (l : ForeachList) : List UInt8 :=
  putWord l.listSlot ++ putTable putWord l.varSlots

def putForeach (f : ForeachInfo) : List UInt8 :=
  putWord f.counterSlot ++ putTable putForeachList f.lists

def putCommand (c : CommandLocation) : List UInt8 :=
  putWord c.codeStart ++ putWord c.codeSize ++ putWord c.sourceStart ++ putWord c.sourceSize

/-- The source text, after a byte that tells whether there is one. -/
def putSource : Option String → List UInt8
  | none => [0]
  | some text => 1 :: putString text

def putTables (u : CompiledUnit) : List UInt8 :=
  putCount u.code.length ++ u.code ++ putTable putString (Value.strs u.literals) ++
    putTable putRange u.ranges ++ putWord u.maxStack ++ putTable putString u.locals ++
    putTable putForeach u.foreachInfos ++ putTable putCommand u.commands ++ putSource u.source

/-- The container of a unit, under a digest function. -/
def encodeWith (digest : List UInt8 → List UInt8) (u : CompiledUnit) : List UInt8 :=
  let body := magic ++ putTables u
  body ++ digest body

/-! ### Reading -/

/-- Reads a value at the start of some bytes and hands back the rest. -/
abbrev Reader (α : Type) := List UInt8 → Except DecodeError (α × List UInt8)

def take (part : ContainerPart) (n : Nat) : Reader (List UInt8) := fun bytes =>
  if bytes.length < n then .error (.unexpectedEnd part) else .ok (bytes.take n, bytes.drop n)

def getByte (part : ContainerPart) : Reader UInt8
  | [] => .error (.unexpectedEnd part)
  | b :: bytes => .ok (b, bytes)

def getWord (part : ContainerPart) : Reader UInt32 := fun bytes => do
  let (word, bytes) ← take part 4 bytes
  return (UInt32.ofNat (Bytes.ofLittleEndian word), bytes)

def getString (part : ContainerPart) : Reader String := fun bytes => do
  let (size, bytes) ← getWord part bytes
  let (chars, bytes) ← take part size.toNat bytes
  match String.fromUTF8? ⟨chars.toArray⟩ with
  | some s => return (s, bytes)
  | none => .error (.invalidUtf8 part)

def getItems {α : Type} (get : Reader α) : Nat → Reader (List α)
  | 0, bytes => .ok ([], bytes)
  | n + 1, bytes => do
    let (item, bytes) ← get bytes
    let (items, bytes) ← getItems get n bytes
    return (item :: items, bytes)

def getTable {α : Type} (part : ContainerPart) (get : Reader α) : Reader (List α) := fun bytes => do
  let (count, bytes) ← getWord part bytes
  getItems get count.toNat bytes

def getTarget : Reader (Option UInt32) := fun bytes => do
  let (word, bytes) ← getWord .ranges bytes
  return (if word == noTarget then none else some word, bytes)

def getKind : Reader RangeKind := fun bytes => do
  let (byte, bytes) ← getByte .ranges bytes
  if byte == 0 then return (.loop, bytes)
  else if byte == 1 then return (.catch, bytes)
  else .error (.invalidRangeKind byte)

def getRange : Reader ExceptionRange := fun bytes => do
  let (kind, bytes) ← getKind bytes
  let (level, bytes) ← getWord .ranges bytes
  let (start, bytes) ← getWord .ranges bytes
  let (size, bytes) ← getWord .ranges bytes
  let (breakTarget, bytes) ← getTarget bytes
  let (continueTarget, bytes) ← getTarget bytes
  let (catchTarget, bytes) ← getTarget bytes
  return ({ kind, level, start, size, breakTarget, continueTarget, catchTarget }, bytes)

def getForeachList : Reader ForeachList := fun bytes => do
  let (listSlot, bytes) ← getWord .foreach bytes
  let (varSlots, bytes) ← getTable .foreach (getWord .foreach) bytes
  return ({ listSlot, varSlots }, bytes)

def getForeach : Reader ForeachInfo := fun bytes => do
  let (counterSlot, bytes) ← getWord .foreach bytes
  let (lists, bytes) ← getTable .foreach getForeachList bytes
  return ({ counterSlot, lists }, bytes)

def getCommand : Reader CommandLocation := fun bytes => do
  let (codeStart, bytes) ← getWord .commands bytes
  let (codeSize, bytes) ← getWord .commands bytes
  let (sourceStart, bytes) ← getWord .commands bytes
  let (sourceSize, bytes) ← getWord .commands bytes
  return ({ codeStart, codeSize, sourceStart, sourceSize }, bytes)

/-- The source text; any byte but zero tells that there is one. -/
def getSource : Reader (Option String) := fun bytes => do
  let (flag, bytes) ← getByte .source bytes
  if flag == 0 then return (none, bytes)
  else
    let (text, bytes) ← getString .source bytes
    return (some text, bytes)

def getTables : Reader CompiledUnit := fun bytes => do
  let (size, bytes) ← getWord .code bytes
  let (code, bytes) ← take .code size.toNat bytes
  let (literals, bytes) ← getTable .literals (getString .literals) bytes
  let (ranges, bytes) ← getTable .ranges getRange bytes
  let (maxStack, bytes) ← getWord .maxStack bytes
  let (locals, bytes) ← getTable .locals (getString .locals) bytes
  let (foreachInfos, bytes) ← getTable .foreach getForeach bytes
  let (commands, bytes) ← getTable .commands getCommand bytes
  let (source, bytes) ← getSource bytes
  return ({ code, literals := literals.map Value.text, ranges, maxStack, locals, foreachInfos,
            commands, source }, bytes)

/-- The unit of a container, under a digest function. What follows the tables is covered by the
digest and not looked at. -/
def decodeWith (digest : List UInt8 → List UInt8) (bytes : List UInt8) :
    Except DecodeError CompiledUnit :=
  if bytes.take magic.length ≠ magic then .error .badMagic
  else if bytes.length < magic.length + digestSize then .error (.unexpectedEnd .digest)
  else
    let size := bytes.length - digestSize
    let body := bytes.take size
    if digest body ≠ bytes.drop size then .error .checksumMismatch
    else (getTables (body.drop magic.length)).map Prod.fst

end CommandVM.Container

namespace CommandVM.CompiledUnit

def encode (u : CompiledUnit) : List UInt8 := Container.encodeWith Blake3.hash u

def decode (bytes : List UInt8) : Except DecodeError CompiledUnit :=
  Container.decodeWith Blake3.hash bytes

def digest (u : CompiledUnit) : String := Bytes.hex (Blake3.hash u.encode)

end CommandVM.CompiledUnit
