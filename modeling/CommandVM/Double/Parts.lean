import CommandVM.Double

/-!
# Doubles as scaled integers

A finite double is a signed integer of at most 53 bits times a power of two. Exact operations on
doubles are done on these parts in unbounded arithmetic.
-/

namespace CommandVM.Double

/-- A finite double: `±mantissa * 2 ^ exponent`. -/
structure Parts where
  negative : Bool
  mantissa : Nat
  exponent : Int
deriving Repr, DecidableEq

def hiddenBit : Nat := 0x10000000000000

def parts? (x : Double) : Option Parts :=
  let bits := x.bits.toNat
  let field : Nat := bits / hiddenBit % 2048
  let fraction : Nat := bits % hiddenBit
  if field = 2047 then none
  else if field = 0 then some ⟨x.isNegative, fraction, -1074⟩
  else some ⟨x.isNegative, hiddenBit + fraction, (field : Int) - 1075⟩

/-- `n * 2 ^ e` as a fraction: its numerator and its denominator. -/
def scaled (n : Nat) (e : Int) : Nat × Nat :=
  if 0 ≤ e then (n <<< e.toNat, 1) else (n, 1 <<< (-e).toNat)

/-- `n / d` rounded to an integer, a half going to the even neighbour. -/
def roundHalfEven (n d : Nat) : Nat :=
  let q := n / d
  let twice := 2 * (n % d)
  if twice < d || (twice = d && q % 2 = 0) then q else q + 1

/-- The exponent `e` with `2 ^ e ≤ n / d < 2 ^ (e + 1)`, for positive `n` and `d`. -/
def binaryExponent (n d : Nat) : Int :=
  let guess : Int := (n.log2 : Int) - d.log2
  let (up, down) := scaled 1 guess
  if d * up ≤ n * down then guess else guess - 1

/-- The bits of the double nearest to `n / d`, a half going to the even mantissa. -/
def nearestBits (n d : Nat) : Nat :=
  if n = 0 then 0
  else
    let quantum := max (binaryExponent n d - 52) (-1074)
    let (up, down) := scaled 1 quantum
    let bits := (quantum + 1074).toNat * hiddenBit + roundHalfEven (n * down) (d * up)
    min bits (2047 * hiddenBit)

def nearest (negative : Bool) (n d : Nat) : Double :=
  let x : Double := ⟨UInt64.ofNat (nearestBits n d)⟩
  if negative then x.neg else x

/-- The double with the given sign that is nearest to `mantissa * 10 ^ exponent`. Exponents beyond
the range of doubles are not expanded. -/
def ofDecimal (negative : Bool) (mantissa : Nat) (exponent : Int) : Double :=
  if mantissa = 0 then nearest negative 0 1
  else if 0 ≤ exponent then
    if exponent ≤ 400 then nearest negative (mantissa * Nat.pow 10 exponent.toNat) 1
    else nearest negative (1 <<< 1100) 1
  else
    let places := (-exponent).toNat
    if 3 * places ≤ mantissa.log2 + 1101 then nearest negative mantissa (Nat.pow 10 places)
    else nearest negative 0 1

def truncate? (x : Double) : Option Int :=
  (parts? x).map fun p =>
    let (n, d) := scaled p.mantissa p.exponent
    let magnitude : Int := (n / d : Nat)
    if p.negative then -magnitude else magnitude

/-- The remainder of `x` by `y` with the sign of `x`, exactly. -/
def remainder (x y : Double) : Double :=
  match parts? x, parts? y with
  | some p, some q =>
    if q.mantissa = 0 then nan
    else
      let unit := min p.exponent q.exponent
      let rest := (p.mantissa <<< (p.exponent - unit).toNat) %
        (q.mantissa <<< (q.exponent - unit).toNat)
      let (n, d) := scaled rest unit
      nearest p.negative n d
  | some _, none => if y.isNaN then y else x
  | none, _ => nan

/-- The integer part of the square root of `n`, from `bits` bits down. -/
def sqrtBits (n : Nat) : Nat → Nat → Nat
  | 0, root => root
  | k + 1, root =>
    let next := root + 1 <<< k
    sqrtBits n k (if next * next ≤ n then next else root)

def sqrtFloor (n : Nat) : Nat := sqrtBits n (n.log2 / 2 + 1) 0

/-- The double nearest to the length of the vector `(x, y)`. -/
def hypotenuse (x y : Double) : Double :=
  if x.isInf || y.isInf then infinity
  else match parts? x, parts? y with
    | some p, some q =>
      let unit := min p.exponent q.exponent
      let a := p.mantissa <<< (p.exponent - unit).toNat
      let b := q.mantissa <<< (q.exponent - unit).toNat
      -- 64 more binary places than the double needs, and a last bit for what the root leaves out.
      let square := (a * a + b * b) <<< 128
      let root := sqrtFloor square
      let tail := if root * root = square then 0 else 1
      let (n, d) := scaled (2 * root + tail) (unit - 65)
      nearest false n d
    | _, _ => nan

end CommandVM.Double
