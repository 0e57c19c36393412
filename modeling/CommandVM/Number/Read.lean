import CommandVM.Double.Parts
import CommandVM.Number
import CommandVM.Text.Blank
import CommandVM.Text.Integer

/-!
# Reading numbers

Number text is a sign and hexadecimal, octal or decimal digits, or a decimal with a point or an
exponent, with blanks around it. `read` gives the number or the reason why there is none.
-/

namespace CommandVM.Number

inductive ReadError where
  | empty
  | notNumeric
  | invalidOctal
  | tooLarge
  | doubleTooLarge
deriving Repr, DecidableEq

def ReadError.message : ReadError → String
  | .empty => "empty string"
  | .notNumeric => "non-numeric string"
  | .invalidOctal => "invalid octal number"
  | .tooLarge => "integer value too large to represent"
  | .doubleTooLarge => "floating-point value too large to represent"

/-- The integer with a sign and a magnitude below `2 ^ 64`, reduced to 64 bits. -/
def ofMagnitude (negative : Bool) (magnitude : Nat) : Except ReadError Number :=
  if magnitude < UInt64.size then
    let value := Int64.ofNat magnitude
    .ok (ofInt64 (if negative then -value else value))
  else .error .tooLarge

/-- The digits of a mantissa and how many of them follow its point; at least one digit and at most
one point are required. -/
def mantissa? (cs : List Char) : Option (Nat × Nat) :=
  let whole := cs.takeWhile (· != '.')
  let fraction := (cs.dropWhile (· != '.')).drop 1
  (Text.natural? 10 (whole ++ fraction)).map fun n => (n, fraction.length)

def exponent? : List Char → Option Int
  | '-' :: ds => (Text.natural? 10 ds).map fun n => -(n : Int)
  | '+' :: ds => (Text.natural? 10 ds).map Int.ofNat
  | ds => (Text.natural? 10 ds).map Int.ofNat

def isExponentMark (c : Char) : Bool := c == 'e' || c == 'E'

/-- The decimal that an unsigned text spells, as a mantissa and a power of ten. -/
def decimal? (body : List Char) : Option (Nat × Int) :=
  match mantissa? (body.takeWhile (!isExponentMark ·)), body.dropWhile (!isExponentMark ·) with
  | some (n, places), [] => some (n, -(places : Int))
  | some (n, places), _ :: ds => (exponent? ds).map fun e => (n, e - places)
  | none, _ => none

def readDouble (negative : Bool) (body : List Char) : Except ReadError Number :=
  match decimal? body with
  | none => .error .notNumeric
  | some (n, e) =>
    let value := Double.ofDecimal negative n e
    if value.isInf then .error .doubleTooLarge else .ok (.double value)

def readBody (negative : Bool) (body : List Char) : Except ReadError Number :=
  match body with
  | [] => .error .notNumeric
  | '0' :: 'x' :: ds | '0' :: 'X' :: ds =>
    match Text.natural? 16 ds with
    | some n => ofMagnitude negative n
    | none => .error .notNumeric
  | c :: cs =>
    if !body.all (Text.isDigit 10) then readDouble negative body
    else if c == '0' && !cs.isEmpty then
      match Text.natural? 8 cs with
      | some n => ofMagnitude negative n
      | none => .error .invalidOctal
    else
      match Text.natural? 10 body with
      | some n => ofMagnitude negative n
      | none => .error .notNumeric

def readChars (cs : List Char) : Except ReadError Number :=
  match Text.trim cs with
  | [] => .error .empty
  | '-' :: body => readBody true body
  | '+' :: body => readBody false body
  | body => readBody false body

def read (text : String) : Except ReadError Number := readChars text.toList

/-! ### Truth words -/

/-- `word` is not empty and is an initial part of `full`. -/
def abbreviates (word : List Char) (full : String) : Bool :=
  !word.isEmpty && word.isPrefixOf full.toList

/-- The truth value that a word names in any case: `true`, `yes`, `on`, `false`, `no` or `off`, or
an initial part of one, where `o` alone is undecided. -/
def truthWord? (word : List Char) : Option Bool :=
  let word := word.map Char.toLower
  if abbreviates word "true" || abbreviates word "yes" then some true
  else if abbreviates word "false" || abbreviates word "no" then some false
  else if word.length < 2 then none
  else if abbreviates word "on" then some true
  else if abbreviates word "off" then some false
  else none

def readTruth? (text : String) : Option Bool :=
  match read text with
  | .ok n => some (!n.isZero)
  | .error _ => truthWord? text.toList

end CommandVM.Number
