/-!
# Bytes

Numbers as little-endian bytes, and bytes in hexadecimal.
-/

namespace CommandVM.Bytes

/-- `count` bytes of a number, the lowest first. -/
def littleEndian : Nat → Nat → List UInt8
  | 0, _ => []
  | count + 1, value => UInt8.ofNat (value % 256) :: littleEndian count (value / 256)

def ofLittleEndian : List UInt8 → Nat
  | [] => 0
  | b :: bs => b.toNat + 256 * ofLittleEndian bs

def hexByte (byte : UInt8) : String :=
  String.ofList (Nat.toDigits 16 (byte.toNat / 16) ++ Nat.toDigits 16 (byte.toNat % 16))

def hex (bytes : List UInt8) : String := String.join (bytes.map hexByte)

end CommandVM.Bytes
