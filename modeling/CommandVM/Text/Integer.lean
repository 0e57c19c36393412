/-!
# Integer text

Digits in a radix up to 36, read as natural numbers or, after one optional sign, as integers in an
interval. An empty run of digits has no value.
-/

namespace CommandVM.Text

/-- The value of a digit in `radix`; letters count from ten in either case. -/
def digitValue? (radix : Nat) (c : Char) : Option Nat :=
  let value :=
    if '0' ≤ c && c ≤ '9' then c.toNat - '0'.toNat
    else if 'a' ≤ c && c ≤ 'z' then c.toNat - 'a'.toNat + 10
    else if 'A' ≤ c && c ≤ 'Z' then c.toNat - 'A'.toNat + 10
    else radix
  if value < radix then some value else none

def isDigit (radix : Nat) (c : Char) : Bool := (digitValue? radix c).isSome

/-- The number that a run of digits spells after the digits of `start`. -/
def digitsFrom? (radix : Nat) (start : Nat) : List Char → Option Nat
  | [] => some start
  | c :: cs => match digitValue? radix c with
    | some d => digitsFrom? radix (start * radix + d) cs
    | none => none

def natural? (radix : Nat) : List Char → Option Nat
  | [] => none
  | cs => digitsFrom? radix 0 cs

/-- An optional sign and one or more digits, with a value in `[low, high]`. -/
def integer? (radix : Nat) (low high : Int) (cs : List Char) : Option Int :=
  let value := match cs with
    | '-' :: ds => (natural? radix ds).map fun n => -(n : Int)
    | '+' :: ds => (natural? radix ds).map Int.ofNat
    | ds => (natural? radix ds).map Int.ofNat
  value.filter fun v => low ≤ v && v ≤ high

def int64? (radix : Nat) (cs : List Char) : Option Int :=
  integer? radix (-0x8000000000000000) 0x7fffffffffffffff cs

def int32? (cs : List Char) : Option Int :=
  integer? 10 (-0x80000000) 0x7fffffff cs

/-- A natural number of 32 bits in decimal; a plus sign may stand before it. -/
def uint32? (cs : List Char) : Option Nat :=
  let digits := match cs with
    | '+' :: ds => ds
    | ds => ds
  (natural? 10 digits).filter (· < UInt32.size)

/-- The character with a given code point; surrogates have none. -/
def char? (code : Nat) : Option Char :=
  if code < 0xd800 || (0xdfff < code && code < 0x110000) then some (Char.ofNat code) else none

end CommandVM.Text
