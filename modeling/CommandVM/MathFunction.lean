/-!
# Built-in math functions

The order of the functions is part of the code format: a call names a function by its number.
-/

namespace CommandVM

/-- What a math function wants for an argument. -/
inductive ArgKind where
  | int
  | wide
  | double
  /-- Any number, as it is. -/
  | either
deriving Repr, DecidableEq

def ArgKind.name : ArgKind → String
  | .int => "Int"
  | .wide => "Wide"
  | .double => "Double"
  | .either => "Either"

inductive MathFunction where
  | acos
  | asin
  | atan
  | atan2
  | ceil
  | cos
  | cosh
  | exp
  | floor
  | fmod
  | hypot
  | log
  | log10
  | pow
  | sin
  | sinh
  | sqrt
  | tan
  | tanh
  | abs
  | double
  | int
  | round
  | rand
  | srand
  | wide
deriving Repr, DecidableEq

namespace MathFunction

/-- All functions, in the order of their numbers. -/
def all : List MathFunction :=
  [.acos, .asin, .atan, .atan2, .ceil, .cos, .cosh, .exp, .floor, .fmod, .hypot, .log, .log10, .pow,
    .sin, .sinh, .sqrt, .tan, .tanh, .abs, .double, .int, .round, .rand, .srand, .wide]

def name : MathFunction → String
  | .acos => "acos"
  | .asin => "asin"
  | .atan => "atan"
  | .atan2 => "atan2"
  | .ceil => "ceil"
  | .cos => "cos"
  | .cosh => "cosh"
  | .exp => "exp"
  | .floor => "floor"
  | .fmod => "fmod"
  | .hypot => "hypot"
  | .log => "log"
  | .log10 => "log10"
  | .pow => "pow"
  | .sin => "sin"
  | .sinh => "sinh"
  | .sqrt => "sqrt"
  | .tan => "tan"
  | .tanh => "tanh"
  | .abs => "abs"
  | .double => "double"
  | .int => "int"
  | .round => "round"
  | .rand => "rand"
  | .srand => "srand"
  | .wide => "wide"

def args : MathFunction → List ArgKind
  | .rand => []
  | .srand => [.int]
  | .abs | .double | .int | .round | .wide => [.either]
  | .atan2 | .fmod | .hypot | .pow => [.double, .double]
  | _ => [.double]

def ofIndex? (index : Nat) : Option MathFunction := all[index]?

def ofName? (name : String) : Option MathFunction := all.find? fun f => f.name == name

def index (f : MathFunction) : Nat := all.idxOf f

end MathFunction

end CommandVM
