import CommandVM.Double.Parts

/-!
# Shortest decimal digits

`shortest` finds the fewest decimal digits that read back as a given double, and among those the
nearest to it. Two equally near candidates are settled upward.
-/

namespace CommandVM.Double

/-- The decimal `0.d₁d₂… * 10 ^ point`. -/
structure Decimal where
  digits : List Char
  point : Int
deriving Repr, DecidableEq

/-- The largest of the `fuel + 1` exponents from `k` down with `10 ^ (k - 1) ≤ n / d`. -/
def decimalPointFrom (n d : Nat) : Nat → Int → Int
  | 0, k => k
  | fuel + 1, k =>
    let reached := if 0 < k then d * Nat.pow 10 (k - 1).toNat ≤ n else d ≤ n * Nat.pow 10 (1 - k).toNat
    if reached then k else decimalPointFrom n d fuel (k - 1)

/-- The exponent `k` with `10 ^ (k - 1) ≤ n / d < 10 ^ k`: the binary exponent gives it up to a few
units. -/
def decimalPoint (n d : Nat) : Int :=
  decimalPointFrom n d 4 (((binaryExponent n d + 1) * 30103).fdiv 100000 + 2)

def Decimal.ofInteger (c : Nat) (e : Int) : Decimal :=
  let digits := Nat.toDigits 10 c
  { digits := (digits.reverse.dropWhile (· == '0')).reverse, point := digits.length + e }

/-- The reals that round to a double: `low / d` to `high / d`, with the ends when `closed`. -/
structure Interval where
  low : Nat
  high : Nat
  closed : Bool

def Interval.holds (i : Interval) (c : Nat) : Bool :=
  if i.closed then i.low ≤ c && c ≤ i.high else i.low < c && c < i.high

/-- The candidate with `count` digits, if one of the two neighbours of `n / d` on that grid lies in
the interval. -/
def candidate? (n d : Nat) (i : Interval) (k : Int) (count : Nat) : Option Decimal :=
  let e := k - count
  -- One step of the grid is `step / d`; `n`, `low` and `high` are stretched by `stretch`.
  let step : Nat := if 0 ≤ e then d * Nat.pow 10 e.toNat else d
  let stretch : Nat := if 0 ≤ e then 1 else Nat.pow 10 (-e).toNat
  let i := { i with low := i.low * stretch, high := i.high * stretch }
  let below := n * stretch / step
  let rest := n * stretch % step
  let downOk := 0 < below && i.holds (below * step)
  let upOk := i.holds ((below + 1) * step)
  match downOk, upOk with
  | true, true => some (Decimal.ofInteger (if 2 * rest < step then below else below + 1) e)
  | true, false => some (Decimal.ofInteger below e)
  | false, true => some (Decimal.ofInteger (below + 1) e)
  | false, false => none

def firstCandidate (n d : Nat) (i : Interval) (k : Int) : Nat → Nat → Decimal
  | 0, count => Decimal.ofInteger n (-(count : Int))
  | fuel + 1, count => (candidate? n d i k count).getD (firstCandidate n d i k fuel (count + 1))

/-- The shortest decimal that reads back as `mantissa * 2 ^ exponent`, for a positive mantissa. -/
def shortest (p : Parts) : Decimal :=
  -- In units of a quarter of the last place the neighbours' midpoints are integers.
  let lower := if p.mantissa = hiddenBit && p.exponent ≠ -1074 then 1 else 2
  let (n, d) := scaled (4 * p.mantissa) (p.exponent - 2)
  let (unit, _) := scaled 1 (p.exponent - 2)
  let i : Interval :=
    { low := n - lower * unit, high := n + 2 * unit, closed := p.mantissa % 2 = 0 }
  firstCandidate n d i (decimalPoint n d) 17 1

end CommandVM.Double
