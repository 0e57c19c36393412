import CommandVM.Double.Parts
import CommandVM.Fault
import CommandVM.Machine.Random
import CommandVM.MathFunction
import CommandVM.Value

/-!
# Math functions

Arguments are converted to the kinds that a function declares. A result that is a NaN or an infinity
is a fault. The random generator's seed goes along, and the clock that it starts from without one.
-/

namespace CommandVM.MathFunction

/-! ### Arguments -/

/-- A native integer, if 32 bits can hold it. -/
def nativeInt (v : Int) : Except Fault Number :=
  if Number.fitsInt v then .ok (.int (Int32.ofInt v)) else .error .integerTooLarge

def doubleToInt (x : Double) : Except Fault Number :=
  match x.truncate? with
  | some v => nativeInt v
  | none => .error .integerTooLarge

def doubleToWide (x : Double) : Except Fault Number :=
  match x.truncate? with
  | some v => if Number.fitsWide v then .ok (.wide (Int64.ofInt v)) else .error .integerTooLarge
  | none => .error .integerTooLarge

def toInt : Number → Except Fault Number
  | .int v => .ok (.int v)
  | .wide v => nativeInt v.toInt
  | .double x => doubleToInt x

def toWide : Number → Except Fault Number
  | .int v => .ok (.wide v.toInt64)
  | .wide v => .ok (.wide v)
  | .double x => doubleToWide x

def convert (kind : ArgKind) (n : Number) : Except Fault Number :=
  match kind with
  | .either => .ok n
  | .double => .ok (.double n.toDouble)
  | .int => toInt n
  | .wide => toWide n

def convertValue (kind : ArgKind) (v : Value) : Except Fault Number :=
  match v.number with
  | .ok n => convert kind n
  | .error _ => .error .nonNumericMathArg

/-- Values as arguments of the given kinds, as many as there are kinds. -/
def convertAll (kinds : List ArgKind) (vs : List Value) : Except Fault (List Number) :=
  if vs.length < kinds.length then .error .tooFewMathArgs
  else if kinds.length < vs.length then .error .tooManyMathArgs
  else (kinds.zip vs).mapM fun (kind, v) => convertValue kind v

/-! ### Results -/

/-- A double result, unless it is a NaN or an infinity. -/
def checkedResult (x : Double) : Except Fault Number :=
  if x.isNaN then .error .domainError
  else if x.isInf then .error .floatOverflow
  else .ok (.double x)

/-- The absolute value in the same representation, where a native integer may widen. -/
def absolute : Number → Number
  | .int v => .ofInt64 (if v.toInt64 < 0 then -v.toInt64 else v.toInt64)
  | .wide v => .wide (if v < 0 then -v else v)
  | .double x => .double x.abs

/-- A double rounded to a native integer, a half going away from zero; integers stay. -/
def rounded : Number → Except Fault Number
  | .double x => doubleToInt (.ofFloat x.toFloat.round)
  | n => .ok n

/-- An elementary function at `x`, and at `y` when it takes two arguments. -/
def ofFloats (f : MathFunction) (x y : Float) : Float :=
  match f with
  | .acos => x.acos
  | .asin => x.asin
  | .atan => x.atan
  | .atan2 => x.atan2 y
  | .ceil => x.ceil
  | .cos => x.cos
  | .cosh => x.cosh
  | .exp => x.exp
  | .floor => x.floor
  | .log => x.log
  | .log10 => x.log10
  | .pow => x.pow y
  | .sin => x.sin
  | .sinh => x.sinh
  | .sqrt => x.sqrt
  | .tan => x.tan
  | .tanh => x.tanh
  | _ => x

def ofDoubles (f : MathFunction) (x y : Double) : Double :=
  match f with
  | .fmod => x.remainder y
  | .hypot => x.hypotenuse y
  | f => .ofFloat (f.ofFloats x.toFloat y.toFloat)

/-- Draws a number from the generator; without a seed it starts from the clock. -/
def draw (clock : Int64) (seed : Option Nat) : Except Fault Number × Option Nat :=
  let seed := Random.next (seed.getD (Random.scramble clock.toInt))
  (checkedResult (.ofFloat (Random.fraction seed)), some seed)

def apply (f : MathFunction) (args : List Number) (clock : Int64) (seed : Option Nat) :
    Except Fault Number × Option Nat :=
  let a := args.getD 0 (.int 0)
  let b := args.getD 1 (.int 0)
  match f with
  | .abs => (.ok (absolute a), seed)
  | .int => (toInt a, seed)
  | .round => (rounded a, seed)
  | .wide => (toWide a, seed)
  | .rand => draw clock seed
  | .srand => draw clock (some (Random.scramble (a.toInt64?.getD 0).toInt))
  | f => (checkedResult (f.ofDoubles a.toDouble b.toDouble), seed)

def call (f : MathFunction) (vs : List Value) (clock : Int64) (seed : Option Nat) :
    Except Fault Number × Option Nat :=
  match convertAll f.args vs with
  | .error e => (.error e, seed)
  | .ok args => f.apply args clock seed

end CommandVM.MathFunction
