import CommandVM.Bytes
import CommandVM.DecodeError
import CommandVM.MathFunction
import CommandVM.Opcode

/-!
# Instructions

An instruction is encoded as its opcode byte and its operands, little-endian. `decodeAll` cuts code
into instructions with their offsets; `encode` is its inverse on operands that fit.
-/

namespace CommandVM

structure Instruction where
  opcode : Opcode
  operands : List Int
deriving Repr, DecidableEq

namespace Instruction

/-- The instruction with the given operands; missing ones are zero and excess ones are dropped. -/
def make (opcode : Opcode) (operands : List Int) : Instruction :=
  { opcode, operands := (opcode.operands.zipIdx.map fun (_, i) => operands.getD i 0) }

def operand (i : Instruction) (n : Nat) : Int := i.operands.getD n 0

def index (i : Instruction) : Nat := (i.operand 0).toNat

def size (i : Instruction) : Nat := i.opcode.size

/-- There is one operand for each kind, and each fits its kind. -/
def Fits (i : Instruction) : Prop :=
  i.operands.length = i.opcode.operands.length ∧
    ∀ pair ∈ i.opcode.operands.zip i.operands, pair.1.fits pair.2 = true

def text (i : Instruction) : String :=
  i.operands.foldl (fun text value => text ++ " " ++ toString value) i.opcode.mnemonic

/-! ### Encoding -/

/-- The bytes of an operand. High bits that the kind has no room for are lost. -/
def encodeOperand (kind : OperandKind) (value : Int) : List UInt8 :=
  Bytes.littleEndian kind.width (value % kind.span).toNat

def encodeOperands : List OperandKind → List Int → List UInt8
  | kind :: kinds, value :: values => encodeOperand kind value ++ encodeOperands kinds values
  | _, _ => []

def encode (i : Instruction) : List UInt8 :=
  i.opcode.byte :: encodeOperands i.opcode.operands i.operands

/-! ### Decoding -/

def decodeOperand (kind : OperandKind) (bytes : List UInt8) : Int :=
  let value := Bytes.ofLittleEndian bytes
  if kind.isSigned && kind.span ≤ 2 * value then (value : Int) - kind.span else value

def decodeOperands? : List OperandKind → List UInt8 → Option (List Int)
  | [], _ => some []
  | kind :: kinds, bytes =>
    if bytes.length < kind.width then none
    else (decodeOperands? kinds (bytes.drop kind.width)).map
      (decodeOperand kind (bytes.take kind.width) :: ·)

/-- The instruction at the start of some bytes that stand at `offset`. -/
def decodeHead (offset : Nat) : List UInt8 → Except DecodeError Instruction
  | [] => .error (.truncated offset)
  | byte :: bytes => match Opcode.ofByte? byte with
    | none => .error (.unknownOpcode offset byte)
    | some opcode => match decodeOperands? opcode.operands bytes with
      | none => .error (.truncated offset)
      | some operands => .ok { opcode, operands }

def decodeAt (code : List UInt8) (offset : Nat) : Except DecodeError Instruction :=
  decodeHead offset (code.drop offset)

/-- At most `fuel` instructions from the start of some bytes that stand at `offset`. -/
def decodeFrom : Nat → Nat → List UInt8 → Except DecodeError (List (Nat × Instruction))
  | _, _, [] => .ok []
  | 0, _, _ => .ok []
  | fuel + 1, offset, bytes => match decodeHead offset bytes with
    | .error e => .error e
    | .ok i => match decodeFrom fuel (offset + i.size) (bytes.drop i.size) with
      | .error e => .error e
      | .ok rest => .ok ((offset, i) :: rest)

/-- The instructions of some code with their offsets. An instruction has at least one byte, so there
are no more of them than bytes. -/
def decodeAll (code : List UInt8) : Except DecodeError (List (Nat × Instruction)) :=
  decodeFrom code.length 0 code

/-! ### Effects -/

def jumpTarget? (i : Instruction) (offset : Nat) : Option Int :=
  if i.opcode.isJump then some (offset + i.operand 0) else none

def pops (i : Instruction) : Nat :=
  match i.opcode with
  | .push1 | .push4 | .loadScalar1 | .loadScalar4 | .incrScalar1Imm | .jump1 | .jump4
  | .breakLoop | .continueLoop | .foreachStart4 | .foreachStep4 | .beginCatch4 | .endCatch
  | .pushResult | .pushReturnCode => 0
  | .done | .pop | .dup | .loadScalarStk | .loadArray1 | .loadArray4 | .loadStk | .storeScalar1
  | .storeScalar4 | .incrScalar1 | .incrScalarStkImm | .incrArray1Imm | .appendScalar1
  | .appendScalar4 | .lappendScalar1 | .lappendScalar4 | .jumpTrue1 | .jumpTrue4 | .jumpFalse1
  | .jumpFalse4 | .uplus | .uminus | .bitnot | .not | .tryCvtToNumeric | .strLen | .listLength
  | .returnValue => 1
  | .loadArrayStk | .storeScalarStk | .storeArray1 | .storeArray4 | .storeStk | .incrScalarStk
  | .incrArray1 | .incrArrayStkImm | .appendArray1 | .appendStk | .lappendArray1 | .lappendStk
  | .lor | .land | .bitor | .bitxor | .bitand | .eq | .neq | .lt | .gt | .le | .ge | .lshift
  | .rshift | .add | .sub | .mult | .div | .mod | .strEq | .strNeq | .strCmp | .strIndex
  | .listIndex => 2
  | .storeArrayStk | .incrArrayStk => 3
  | .over => i.index + 1
  | .concat1 | .invokeStk1 | .invokeStk4 | .callFunc1 | .list => i.index
  | .callBuiltinFunc1 => ((MathFunction.ofIndex? i.index).map fun f => f.args.length).getD 0

def pushes (i : Instruction) : Nat :=
  match i.opcode with
  | .done | .pop | .jump1 | .jump4 | .jumpTrue1 | .jumpTrue4 | .jumpFalse1 | .jumpFalse4
  | .breakLoop | .continueLoop | .foreachStart4 | .beginCatch4 | .endCatch | .returnValue => 0
  | .dup => 2
  | .over => i.index + 2
  | _ => 1

end Instruction

end CommandVM
