/-!
# Opcodes

An instruction is an opcode byte and up to two operands of fixed width. Opcodes are numbered densely
from zero, and no byte above the last of them is an opcode.
-/

namespace CommandVM

/-- Width and sign of an operand. -/
inductive OperandKind where
  | u1
  | i1
  | u4
  | i4
deriving Repr, DecidableEq

namespace OperandKind

def name : OperandKind → String
  | .u1 => "U1"
  | .i1 => "I1"
  | .u4 => "U4"
  | .i4 => "I4"

def all : List OperandKind := [.u1, .i1, .u4, .i4]

def width : OperandKind → Nat
  | .u1 | .i1 => 1
  | .u4 | .i4 => 4

/-- The number of values that as many bytes can hold. -/
def span : OperandKind → Nat
  | .u1 | .i1 => 0x100
  | .u4 | .i4 => 0x100000000

def isSigned : OperandKind → Bool
  | .i1 | .i4 => true
  | .u1 | .u4 => false

def fits (kind : OperandKind) (value : Int) : Bool :=
  match kind with
  | .u1 => 0 ≤ value && value < 0x100
  | .i1 => -0x80 ≤ value && value < 0x80
  | .u4 => 0 ≤ value && value < 0x100000000
  | .i4 => -0x80000000 ≤ value && value < 0x80000000

end OperandKind

/-- What an instruction does. A digit at the end of a name is the width of its first operand. -/
inductive Opcode where
  /-- Pops the result and finishes the frame. -/
  | done
  /-- Pushes a literal. -/
  | push1
  | push4
  | pop
  | dup
  /-- Pushes a copy of the value `n` slots below the top. -/
  | over
  /-- Joins the texts of the top `n` values. -/
  | concat1
  /-- Invokes a command with the top `n` values, its name first. -/
  | invokeStk1
  | invokeStk4
  | loadScalar1
  | loadScalar4
  | loadScalarStk
  | loadArray1
  | loadArray4
  | loadArrayStk
  /-- Loads the variable named on the stack, which may be an array element. -/
  | loadStk
  | storeScalar1
  | storeScalar4
  | storeScalarStk
  | storeArray1
  | storeArray4
  | storeArrayStk
  | storeStk
  | incrScalar1
  | incrScalarStk
  | incrScalar1Imm
  | incrScalarStkImm
  | incrArray1
  | incrArrayStk
  | incrArray1Imm
  | incrArrayStkImm
  | appendScalar1
  | appendScalar4
  | appendArray1
  | appendStk
  | lappendScalar1
  | lappendScalar4
  | lappendArray1
  | lappendStk
  | jump1
  | jump4
  | jumpTrue1
  | jumpTrue4
  | jumpFalse1
  | jumpFalse4
  | lor
  | land
  | bitor
  | bitxor
  | bitand
  | eq
  | neq
  | lt
  | gt
  | le
  | ge
  | lshift
  | rshift
  | add
  | sub
  | mult
  | div
  | mod
  | uplus
  | uminus
  | bitnot
  | not
  /-- Calls a built-in math function by its number. -/
  | callBuiltinFunc1
  /-- Calls a math function by name; the operand counts the name. -/
  | callFunc1
  /-- Gives the top value its numeric representation when it has a numeric view. -/
  | tryCvtToNumeric
  | breakLoop
  | continueLoop
  /-- Resets the counter of a foreach loop. -/
  | foreachStart4
  /-- Assigns the variables of the next iteration and pushes whether there is one. -/
  | foreachStep4
  /-- Saves the stack height for a catch range. -/
  | beginCatch4
  /-- Forgets the last saved height. -/
  | endCatch
  /-- Pushes the result of the machine. -/
  | pushResult
  /-- Pushes the completion code of the last caught exception. -/
  | pushReturnCode
  | strEq
  | strNeq
  | strCmp
  | strLen
  | strIndex
  | list
  | listLength
  | listIndex
  /-- Completes with `return` and the top value. -/
  | returnValue
deriving Repr, DecidableEq

namespace Opcode

/-- All opcodes, in the order of their bytes. -/
def all : List Opcode :=
  [.done, .push1, .push4, .pop, .dup, .over, .concat1, .invokeStk1, .invokeStk4, .loadScalar1,
    .loadScalar4, .loadScalarStk, .loadArray1, .loadArray4, .loadArrayStk, .loadStk, .storeScalar1,
    .storeScalar4, .storeScalarStk, .storeArray1, .storeArray4, .storeArrayStk, .storeStk,
    .incrScalar1, .incrScalarStk, .incrScalar1Imm, .incrScalarStkImm, .incrArray1, .incrArrayStk,
    .incrArray1Imm, .incrArrayStkImm, .appendScalar1, .appendScalar4, .appendArray1, .appendStk,
    .lappendScalar1, .lappendScalar4, .lappendArray1, .lappendStk, .jump1, .jump4, .jumpTrue1,
    .jumpTrue4, .jumpFalse1, .jumpFalse4, .lor, .land, .bitor, .bitxor, .bitand, .eq, .neq, .lt,
    .gt, .le, .ge, .lshift, .rshift, .add, .sub, .mult, .div, .mod, .uplus, .uminus, .bitnot, .not,
    .callBuiltinFunc1, .callFunc1, .tryCvtToNumeric, .breakLoop, .continueLoop, .foreachStart4,
    .foreachStep4, .beginCatch4, .endCatch, .pushResult, .pushReturnCode, .strEq, .strNeq, .strCmp,
    .strLen, .strIndex, .list, .listLength, .listIndex, .returnValue]

def byte : Opcode → UInt8
  | .done => 0x00
  | .push1 => 0x01
  | .push4 => 0x02
  | .pop => 0x03
  | .dup => 0x04
  | .over => 0x05
  | .concat1 => 0x06
  | .invokeStk1 => 0x07
  | .invokeStk4 => 0x08
  | .loadScalar1 => 0x09
  | .loadScalar4 => 0x0a
  | .loadScalarStk => 0x0b
  | .loadArray1 => 0x0c
  | .loadArray4 => 0x0d
  | .loadArrayStk => 0x0e
  | .loadStk => 0x0f
  | .storeScalar1 => 0x10
  | .storeScalar4 => 0x11
  | .storeScalarStk => 0x12
  | .storeArray1 => 0x13
  | .storeArray4 => 0x14
  | .storeArrayStk => 0x15
  | .storeStk => 0x16
  | .incrScalar1 => 0x17
  | .incrScalarStk => 0x18
  | .incrScalar1Imm => 0x19
  | .incrScalarStkImm => 0x1a
  | .incrArray1 => 0x1b
  | .incrArrayStk => 0x1c
  | .incrArray1Imm => 0x1d
  | .incrArrayStkImm => 0x1e
  | .appendScalar1 => 0x1f
  | .appendScalar4 => 0x20
  | .appendArray1 => 0x21
  | .appendStk => 0x22
  | .lappendScalar1 => 0x23
  | .lappendScalar4 => 0x24
  | .lappendArray1 => 0x25
  | .lappendStk => 0x26
  | .jump1 => 0x27
  | .jump4 => 0x28
  | .jumpTrue1 => 0x29
  | .jumpTrue4 => 0x2a
  | .jumpFalse1 => 0x2b
  | .jumpFalse4 => 0x2c
  | .lor => 0x2d
  | .land => 0x2e
  | .bitor => 0x2f
  | .bitxor => 0x30
  | .bitand => 0x31
  | .eq => 0x32
  | .neq => 0x33
  | .lt => 0x34
  | .gt => 0x35
  | .le => 0x36
  | .ge => 0x37
  | .lshift => 0x38
  | .rshift => 0x39
  | .add => 0x3a
  | .sub => 0x3b
  | .mult => 0x3c
  | .div => 0x3d
  | .mod => 0x3e
  | .uplus => 0x3f
  | .uminus => 0x40
  | .bitnot => 0x41
  | .not => 0x42
  | .callBuiltinFunc1 => 0x43
  | .callFunc1 => 0x44
  | .tryCvtToNumeric => 0x45
  | .breakLoop => 0x46
  | .continueLoop => 0x47
  | .foreachStart4 => 0x48
  | .foreachStep4 => 0x49
  | .beginCatch4 => 0x4a
  | .endCatch => 0x4b
  | .pushResult => 0x4c
  | .pushReturnCode => 0x4d
  | .strEq => 0x4e
  | .strNeq => 0x4f
  | .strCmp => 0x50
  | .strLen => 0x51
  | .strIndex => 0x52
  | .list => 0x53
  | .listLength => 0x54
  | .listIndex => 0x55
  | .returnValue => 0x56

def ofByte? (byte : UInt8) : Option Opcode := all[byte.toNat]?

def mnemonic : Opcode → String
  | .done => "DONE"
  | .push1 => "PUSH1"
  | .push4 => "PUSH4"
  | .pop => "POP"
  | .dup => "DUP"
  | .over => "OVER"
  | .concat1 => "CONCAT1"
  | .invokeStk1 => "INVOKE_STK1"
  | .invokeStk4 => "INVOKE_STK4"
  | .loadScalar1 => "LOAD_SCALAR1"
  | .loadScalar4 => "LOAD_SCALAR4"
  | .loadScalarStk => "LOAD_SCALAR_STK"
  | .loadArray1 => "LOAD_ARRAY1"
  | .loadArray4 => "LOAD_ARRAY4"
  | .loadArrayStk => "LOAD_ARRAY_STK"
  | .loadStk => "LOAD_STK"
  | .storeScalar1 => "STORE_SCALAR1"
  | .storeScalar4 => "STORE_SCALAR4"
  | .storeScalarStk => "STORE_SCALAR_STK"
  | .storeArray1 => "STORE_ARRAY1"
  | .storeArray4 => "STORE_ARRAY4"
  | .storeArrayStk => "STORE_ARRAY_STK"
  | .storeStk => "STORE_STK"
  | .incrScalar1 => "INCR_SCALAR1"
  | .incrScalarStk => "INCR_SCALAR_STK"
  | .incrScalar1Imm => "INCR_SCALAR1_IMM"
  | .incrScalarStkImm => "INCR_SCALAR_STK_IMM"
  | .incrArray1 => "INCR_ARRAY1"
  | .incrArrayStk => "INCR_ARRAY_STK"
  | .incrArray1Imm => "INCR_ARRAY1_IMM"
  | .incrArrayStkImm => "INCR_ARRAY_STK_IMM"
  | .appendScalar1 => "APPEND_SCALAR1"
  | .appendScalar4 => "APPEND_SCALAR4"
  | .appendArray1 => "APPEND_ARRAY1"
  | .appendStk => "APPEND_STK"
  | .lappendScalar1 => "LAPPEND_SCALAR1"
  | .lappendScalar4 => "LAPPEND_SCALAR4"
  | .lappendArray1 => "LAPPEND_ARRAY1"
  | .lappendStk => "LAPPEND_STK"
  | .jump1 => "JUMP1"
  | .jump4 => "JUMP4"
  | .jumpTrue1 => "JUMP_TRUE1"
  | .jumpTrue4 => "JUMP_TRUE4"
  | .jumpFalse1 => "JUMP_FALSE1"
  | .jumpFalse4 => "JUMP_FALSE4"
  | .lor => "LOR"
  | .land => "LAND"
  | .bitor => "BITOR"
  | .bitxor => "BITXOR"
  | .bitand => "BITAND"
  | .eq => "EQ"
  | .neq => "NEQ"
  | .lt => "LT"
  | .gt => "GT"
  | .le => "LE"
  | .ge => "GE"
  | .lshift => "LSHIFT"
  | .rshift => "RSHIFT"
  | .add => "ADD"
  | .sub => "SUB"
  | .mult => "MULT"
  | .div => "DIV"
  | .mod => "MOD"
  | .uplus => "UPLUS"
  | .uminus => "UMINUS"
  | .bitnot => "BITNOT"
  | .not => "NOT"
  | .callBuiltinFunc1 => "CALL_BUILTIN_FUNC1"
  | .callFunc1 => "CALL_FUNC1"
  | .tryCvtToNumeric => "TRY_CVT_TO_NUMERIC"
  | .breakLoop => "BREAK"
  | .continueLoop => "CONTINUE"
  | .foreachStart4 => "FOREACH_START4"
  | .foreachStep4 => "FOREACH_STEP4"
  | .beginCatch4 => "BEGIN_CATCH4"
  | .endCatch => "END_CATCH"
  | .pushResult => "PUSH_RESULT"
  | .pushReturnCode => "PUSH_RETURN_CODE"
  | .strEq => "STR_EQ"
  | .strNeq => "STR_NEQ"
  | .strCmp => "STR_CMP"
  | .strLen => "STR_LEN"
  | .strIndex => "STR_INDEX"
  | .list => "LIST"
  | .listLength => "LIST_LENGTH"
  | .listIndex => "LIST_INDEX"
  | .returnValue => "RETURN"

/-- The opcode with a mnemonic in any case. -/
def ofMnemonic? (name : String) : Option Opcode :=
  all.find? fun op => op.mnemonic.toLower == name.toLower

def operands : Opcode → List OperandKind
  | .push1 | .concat1 | .invokeStk1 | .loadScalar1 | .loadArray1 | .storeScalar1 | .storeArray1
  | .incrScalar1 | .incrArray1 | .appendScalar1 | .appendArray1 | .lappendScalar1
  | .lappendArray1 | .callBuiltinFunc1 | .callFunc1 => [.u1]
  | .push4 | .over | .invokeStk4 | .loadScalar4 | .loadArray4 | .storeScalar4 | .storeArray4
  | .appendScalar4 | .lappendScalar4 | .foreachStart4 | .foreachStep4 | .beginCatch4
  | .list => [.u4]
  | .incrScalar1Imm | .incrArray1Imm => [.u1, .i1]
  | .incrScalarStkImm | .incrArrayStkImm | .jump1 | .jumpTrue1 | .jumpFalse1 => [.i1]
  | .jump4 | .jumpTrue4 | .jumpFalse4 => [.i4]
  | _ => []

def size (op : Opcode) : Nat := op.operands.foldl (fun size kind => size + kind.width) 1

/-- The first operand is a jump distance. -/
def isJump : Opcode → Bool
  | .jump1 | .jump4 | .jumpTrue1 | .jumpTrue4 | .jumpFalse1 | .jumpFalse4 => true
  | _ => false

/-- Control never goes on to the next instruction. -/
def isTerminal : Opcode → Bool
  | .done | .jump1 | .jump4 | .breakLoop | .continueLoop | .returnValue => true
  | _ => false

/-- The first operand is the slot of a local variable. -/
def takesLocal : Opcode → Bool
  | .loadScalar1 | .loadScalar4 | .loadArray1 | .loadArray4 | .storeScalar1 | .storeScalar4
  | .storeArray1 | .storeArray4 | .incrScalar1 | .incrScalar1Imm | .incrArray1 | .incrArray1Imm
  | .appendScalar1 | .appendScalar4 | .appendArray1 | .lappendScalar1 | .lappendScalar4
  | .lappendArray1 => true
  | _ => false

end Opcode

end CommandVM
