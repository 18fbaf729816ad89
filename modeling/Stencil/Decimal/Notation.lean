import Stencil.Numeric.FloatKind
import Stencil.Decimal.Shortest
/-!
How a float is written: plainly, with every digit in its place, or for diagnostics, where very small and
very large numbers take an exponent.
-/
set_option autoImplicit false

namespace Stencil.Decimal

def digitsOf (n : Nat) : List Char := Nat.toDigits 10 n

namespace Scientific

def positional (s : Scientific) : List Char × List Char :=
  let ds := digitsOf s.digits
  if 0 ≤ s.power then (ds ++ List.replicate s.power.toNat '0', [])
  else
    let places := (-s.power).toNat
    if places < ds.length then (ds.take (ds.length - places), ds.drop (ds.length - places))
    else (['0'], List.replicate (places - ds.length) '0' ++ ds)

def magnitude (s : Scientific) : Int := s.power + (digitsOf s.digits).length - 1

def exponential (s : Scientific) : List Char :=
  let exponent := (toString s.magnitude).toList
  match digitsOf s.digits with
  | d :: [] => d :: 'e' :: exponent
  | d :: ds => d :: '.' :: ds ++ 'e' :: exponent
  | [] => []

end Scientific

def plainWith (shortest : Float → Scientific) (x : Float) : List Char :=
  let sign := if (Binary.ofFloat x).negative then ['-'] else []
  if x == 0.0 then sign ++ ['0']
  else
    match (shortest x.abs).positional with
    | (whole, []) => sign ++ whole
    | (whole, fraction) => sign ++ whole ++ '.' :: fraction

def plain : FloatKind → Float → List Char
  | .f32, x => plainWith shortest32 x.toFloat32.toFloat
  | .f64, x => plainWith shortest64 x

/-- Text of any double in a token: `inf` and `NaN` where there are no digits. -/
def literalText (x : Float) : String :=
  if x.isNaN then "NaN"
  else if x.isInf then if x < 0.0 then "-inf" else "inf"
  else String.ofList (plain .f64 x)

/-- Text of a double in diagnostics: a fraction is always there, and below `1e-4` and from `1e16` on an
exponent is used. -/
def diagnosticText (x : Float) : String :=
  if x.isNaN then "NaN"
  else if x.isInf then if x < 0.0 then "-inf" else "inf"
  else
    let sign := if (Binary.ofFloat x).negative then ['-'] else []
    if x == 0.0 then String.ofList (sign ++ ['0', '.', '0'])
    else
      let s := shortest64 x.abs
      if s.magnitude < -4 || 16 ≤ s.magnitude then String.ofList (sign ++ s.exponential)
      else
        match s.positional with
        | (whole, []) => String.ofList (sign ++ whole ++ ['.', '0'])
        | (whole, fraction) => String.ofList (sign ++ whole ++ '.' :: fraction)

end Stencil.Decimal
