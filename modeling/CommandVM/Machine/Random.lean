/-!
# Random numbers

The minimal standard generator: each step multiplies the seed by 16807 modulo `2 ^ 31 - 1`, without
leaving 32 bits on the way.
-/

namespace CommandVM.Random

def multiplier : Nat := 16807
/-- The modulus, a prime. -/
def modulus : Nat := 2147483647
def quotient : Nat := 127773
def remainder : Nat := 2836
/-- What replaces the two seeds from which the generator would not move. -/
def mask : Nat := 123459876

/-- The first seed for a number: its low 31 bits, away from the two seeds that stay put. -/
def scramble (n : Int) : Nat :=
  let seed := (n % 0x80000000).toNat
  if seed = 0 || seed = 0x7fffffff then seed ^^^ mask else seed

/-- The next seed before a negative value is corrected. -/
def advance (seed : Nat) : Int :=
  (multiplier : Int) * (seed % quotient : Nat) - remainder * (seed / quotient : Nat)

def next (seed : Nat) : Nat :=
  let n := advance seed
  (if n < 0 then n + modulus else n).toNat

def fraction (seed : Nat) : Float := Float.ofNat seed / Float.ofNat modulus

end CommandVM.Random
