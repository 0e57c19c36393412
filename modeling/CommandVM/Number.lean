import CommandVM.Double

/-!
# Numbers

A number is a native integer of 32 bits, a wide integer of 64 bits or a double.
-/

namespace CommandVM

/-- A number with its representation. -/
inductive Number where
  | int (value : Int32)
  | wide (value : Int64)
  | double (value : Double)
deriving Repr, DecidableEq

namespace Number

def fitsInt (value : Int) : Bool := -0x80000000 ≤ value && value < 0x80000000

def fitsWide (value : Int) : Bool :=
  -0x8000000000000000 ≤ value && value < 0x8000000000000000

/-- The narrowest integer representation of a value. -/
def ofInt64 (value : Int64) : Number :=
  if fitsInt value.toInt then .int value.toInt32 else .wide value

def ofBool (b : Bool) : Number := .int (if b then 1 else 0)

def isDouble : Number → Bool
  | .double _ => true
  | _ => false

def isWide : Number → Bool
  | .wide _ => true
  | _ => false

def toInt64? : Number → Option Int64
  | .int v => some v.toInt64
  | .wide v => some v
  | .double _ => none

def toDouble : Number → Double
  | .int v => .ofFloat v.toInt64.toFloat
  | .wide v => .ofFloat v.toFloat
  | .double v => v

def toFloat (n : Number) : Float := n.toDouble.toFloat

/-- The number is zero; a double of either sign counts. -/
def isZero : Number → Bool
  | .int v => v == 0
  | .wide v => v == 0
  | .double v => v.isZero

end Number

end CommandVM
