/-!
# Doubles

A double is kept as the 64 bits of its IEEE 754 encoding, so that the sign and the payload of a NaN
survive. Arithmetic goes through `Float`.
-/

namespace CommandVM

/-- A double by its IEEE 754 bits. -/
structure Double where
  bits : UInt64
deriving Repr, DecidableEq

namespace Double

def signBit : UInt64 := 0x8000000000000000

/-- The bits of positive infinity; the bits above them are those of NaNs. -/
def infinityBits : UInt64 := 0x7ff0000000000000

def infinity : Double := ⟨infinityBits⟩

/-- The NaN that invalid operations give. -/
def nan : Double := ⟨0x7ff8000000000000⟩

def toFloat (x : Double) : Float := Float.ofBits x.bits

def ofFloat (x : Float) : Double := ⟨x.toBits⟩

def isNegative (x : Double) : Bool := x.bits &&& signBit != 0

/-- The other sign, also of a zero or a NaN. -/
def neg (x : Double) : Double := ⟨x.bits ^^^ signBit⟩

def abs (x : Double) : Double := ⟨x.bits &&& ~~~signBit⟩

def isNaN (x : Double) : Bool := infinityBits < x.abs.bits

def isInf (x : Double) : Bool := x.abs.bits == infinityBits

def isZero (x : Double) : Bool := x.abs.bits == 0

end Double

end CommandVM
