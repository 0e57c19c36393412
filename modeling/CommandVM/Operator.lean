import CommandVM.Fault
import CommandVM.Opcode
import CommandVM.Value

/-!
# Operators

A binary operator runs in the widest representation of its operands: double if either is a double,
else wide if either is wide, else native. Integers wrap at 64 bits, and a native result that does
not fit 32 bits becomes wide.
-/

namespace CommandVM

inductive BinaryOp where
  | add
  | sub
  | mult
  | div
  | mod
  | bitor
  | bitxor
  | bitand
  | lshift
  | rshift
deriving Repr, DecidableEq

inductive UnaryOp where
  | plus
  | minus
  | bitnot
deriving Repr, DecidableEq

inductive Relation where
  | eq
  | neq
  | lt
  | gt
  | le
  | ge
deriving Repr, DecidableEq

namespace Opcode

def binary? : Opcode → Option BinaryOp
  | .add => some .add
  | .sub => some .sub
  | .mult => some .mult
  | .div => some .div
  | .mod => some .mod
  | .bitor => some .bitor
  | .bitxor => some .bitxor
  | .bitand => some .bitand
  | .lshift => some .lshift
  | .rshift => some .rshift
  | _ => none

/-- The unary operator of an opcode: the two signs, and the complement for all others. -/
def unary : Opcode → UnaryOp
  | .uplus => .plus
  | .uminus => .minus
  | _ => .bitnot

/-- The comparison of an opcode: `ge` for those that do not compare. -/
def relation : Opcode → Relation
  | .eq => .eq
  | .neq => .neq
  | .lt => .lt
  | .gt => .gt
  | .le => .le
  | _ => .ge

/-- The sign of an operator in messages; other opcodes go by their mnemonic. -/
def symbol : Opcode → String
  | .lor => "||"
  | .land => "&&"
  | .bitor => "|"
  | .bitxor => "^"
  | .bitand => "&"
  | .eq => "=="
  | .neq => "!="
  | .lt => "<"
  | .gt => ">"
  | .le => "<="
  | .ge => ">="
  | .lshift => "<<"
  | .rshift => ">>"
  | .add | .uplus => "+"
  | .sub | .uminus => "-"
  | .mult => "*"
  | .div => "/"
  | .mod => "%"
  | .bitnot => "~"
  | .not => "!"
  | op => op.mnemonic

end Opcode

def BinaryOp.symbol : BinaryOp → String
  | .add => "+"
  | .sub => "-"
  | .mult => "*"
  | .div => "/"
  | .mod => "%"
  | .bitor => "|"
  | .bitxor => "^"
  | .bitand => "&"
  | .lshift => "<<"
  | .rshift => ">>"

namespace Operator

/-! ### Operands -/

def operand (v : Value) (symbol : String) : Except Fault Number :=
  match v.number with
  | .ok n => .ok n
  | .error e => .error (Fault.ofReadError symbol e)

def truth (v : Value) (symbol : String) : Except Fault Bool :=
  match v.truth? with
  | some b => .ok b
  | none => match v.number with
    | .error e => .error (Fault.ofReadError symbol e)
    | .ok _ => .error (.expectedBoolean v.str)

/-! ### Integers -/

/-- The quotient rounded down; `b` is not zero. -/
def floorDiv (a b : Int64) : Int64 :=
  let r := a % b
  if r != 0 && decide (r < 0) != decide (b < 0) then a / b - 1 else a / b

/-- The remainder with the sign of `b`, which is not zero. -/
def floorMod (a b : Int64) : Int64 :=
  let r := a % b
  if r != 0 && decide (r < 0) != decide (b < 0) then r + b else r

/-- An integer with the tag of its operands. -/
def tagged (wide : Bool) (v : Int64) : Number := if wide then .wide v else .ofInt64 v

/-- A shift by any count that is not negative. -/
def shifted (left : Bool) (x n : Int64) : Int64 :=
  if left then if 64 ≤ n then 0 else x <<< n
  else if 64 ≤ n then x >>> 63 else x >>> n

def integerBinary (op : BinaryOp) (x y : Int64) : Except Fault Int64 :=
  match op with
  | .add => .ok (x + y)
  | .sub => .ok (x - y)
  | .mult => .ok (x * y)
  | .div => if y == 0 then .error .divideByZero else .ok (floorDiv x y)
  | .mod => if y == 0 then .error .divideByZero else .ok (floorMod x y)
  | .bitor => .ok (x ||| y)
  | .bitxor => .ok (x ^^^ y)
  | .bitand => .ok (x &&& y)
  | .lshift => if y < 0 then .error .negativeShift else .ok (shifted true x y)
  | .rshift => if y < 0 then .error .negativeShift else .ok (shifted false x y)

/-! ### Doubles -/

/-- A double result, unless it is a NaN, an infinity, or a zero that was lost to rounding. -/
def checkedDouble (lost : Bool) (result : Float) : Except Fault Number :=
  if result.isNaN then .error .domainError
  else if result.isInf then .error .floatOverflow
  else if result == 0 && lost then .error .floatUnderflow
  else .ok (.double (.ofFloat result))

/-- A binary operator on two doubles; only the four arithmetic ones take doubles. -/
def doubleBinary (op : BinaryOp) (x y : Float) : Except Fault Number :=
  match op with
  | .add => checkedDouble false (x + y)
  | .sub => checkedDouble false (x - y)
  | .mult => checkedDouble (x != 0 && y != 0) (x * y)
  | .div => if y == 0 then .error .divideByZero else checkedDouble (x != 0) (x / y)
  | op => .error (.illegalOperand .floatingPoint op.symbol)

/-! ### All numbers -/

/-- The result is wide: for a shift when the left operand is, else when either is. -/
def isWideResult (op : BinaryOp) (a b : Number) : Bool :=
  match op with
  | .lshift | .rshift => a.isWide
  | _ => a.isWide || b.isWide

def binary (op : BinaryOp) (a b : Number) : Except Fault Number :=
  match a.toInt64?, b.toInt64? with
  | some x, some y => (integerBinary op x y).map (tagged (isWideResult op a b))
  | _, _ => doubleBinary op a.toFloat b.toFloat

/-- A unary operator on a number, with the symbol that a double has to name when it is refused. -/
def unary (op : UnaryOp) (symbol : String) (a : Number) : Except Fault Number :=
  match op, a with
  | .plus, a => .ok a
  | .minus, .int x => .ok (.ofInt64 (-x.toInt64))
  | .minus, .wide x => .ok (.wide (-x))
  | .minus, .double x => .ok (.double x.neg)
  | .bitnot, .int x => .ok (.int (~~~x))
  | .bitnot, .wide x => .ok (.wide (~~~x))
  | .bitnot, .double _ => .error (.illegalOperand .floatingPoint symbol)

/-! ### Comparisons -/

/-- The order of two numbers; a NaN equals everything. -/
def compareNumbers (a b : Number) : Ordering :=
  match a.toInt64?, b.toInt64? with
  | some x, some y => if x < y then .lt else if x == y then .eq else .gt
  | _, _ =>
    let x := a.toFloat
    let y := b.toFloat
    if x < y then .lt else if y < x then .gt else .eq

def compareTexts : List Char → List Char → Ordering
  | [], [] => .eq
  | [], _ :: _ => .lt
  | _ :: _, [] => .gt
  | c :: cs, d :: ds =>
    if c.toNat < d.toNat then .lt else if d.toNat < c.toNat then .gt else compareTexts cs ds

/-- The order of two values: as numbers when both have a numeric view, else by their texts. -/
def compare (a b : Value) : Ordering :=
  match a.number, b.number with
  | .ok x, .ok y => compareNumbers x y
  | _, _ => compareTexts a.str.toList b.str.toList

def holds : Relation → Ordering → Bool
  | .eq, o => o == .eq
  | .neq, o => o != .eq
  | .lt, o => o == .lt
  | .gt, o => o == .gt
  | .le, o => o != .gt
  | .ge, o => o != .lt

end Operator

end CommandVM
