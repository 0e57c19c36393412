import CommandVM.Double.Shortest
import CommandVM.Number

/-!
# Writing numbers

Doubles are written with the fewest digits that read back. `DoubleStyle` holds the choices of a
notation; `valueStyle` is the one that values print, `plainStyle` the one without exponents.
-/

namespace CommandVM.Number

structure DoubleStyle where
  /-- Decimal points `p`, with the value in `[10 ^ (p - 1), 10 ^ p)`, that are written without an
  exponent. -/
  positional : Int → Bool
  /-- What follows an integral value without an exponent. -/
  integralSuffix : String
  infinity : String

/-- Values keep a `.0`, and use an exponent below `1e-4` and from `1e17` up. -/
def valueStyle : DoubleStyle :=
  { positional := fun p => -3 ≤ p && p ≤ 17, integralSuffix := ".0", infinity := "Inf" }

/-- All digits are written, and an integral value has no point. -/
def plainStyle : DoubleStyle :=
  { positional := fun _ => true, integralSuffix := "", infinity := "inf" }

/-- Digits with the decimal point after the first `point` of them. -/
def positionalText (suffix : String) (d : Double.Decimal) : String :=
  if d.point ≤ 0 then
    "0." ++ String.ofList (List.replicate (-d.point).toNat '0' ++ d.digits)
  else
    let n := d.point.toNat
    if d.digits.length ≤ n then
      String.ofList (d.digits ++ List.replicate (n - d.digits.length) '0') ++ suffix
    else String.ofList (d.digits.take n) ++ "." ++ String.ofList (d.digits.drop n)

/-- One digit before the point, then a signed exponent of at least two digits. -/
def exponentText (d : Double.Decimal) : String :=
  let e := d.point - 1
  let lead := String.ofList (d.digits.take 1)
  let fraction := d.digits.drop 1
  let mantissa := if fraction.isEmpty then lead else lead ++ "." ++ String.ofList fraction
  let size := toString e.natAbs
  let padded := if e.natAbs < 10 then "0" ++ size else size
  mantissa ++ (if e < 0 then "e-" else "e+") ++ padded

def doubleTextIn (style : DoubleStyle) (x : Double) : String :=
  if x.isNaN then "NaN"
  else
    let sign := if x.isNegative then "-" else ""
    match x.parts? with
    | none => sign ++ style.infinity
    | some p =>
      if p.mantissa = 0 then sign ++ "0" ++ style.integralSuffix
      else
        let d := Double.shortest p
        sign ++ (if style.positional d.point then positionalText style.integralSuffix d
          else exponentText d)

def doubleText (x : Double) : String := doubleTextIn valueStyle x

def text : Number → String
  | .int v => toString v.toInt
  | .wide v => toString v.toInt
  | .double v => doubleText v

end CommandVM.Number
