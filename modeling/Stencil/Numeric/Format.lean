import Stencil.Decimal.Notation
set_option autoImplicit false

namespace Stencil

structure NumberFormat where
  decimalSeparator : Char
  groupSeparator : Option Char
deriving DecidableEq, Repr, Inhabited

namespace NumberFormat

def invariant : NumberFormat := ⟨'.', none⟩

def group (separator : Char) : List Char → List Char
  | [] => []
  | d :: ds =>
    if !ds.isEmpty && ds.length % 3 = 0 then d :: separator :: group separator ds
    else d :: group separator ds

def grouped (f : NumberFormat) (digits : List Char) : List Char :=
  match f.groupSeparator with
  | some c => group c digits
  | none => digits

def splitSign : List Char → List Char × List Char
  | '-' :: cs => (['-'], cs)
  | cs => ([], cs)

def splitAt (p : Char → Bool) (cs : List Char) : List Char × List Char :=
  (cs.takeWhile fun c => !p c, cs.dropWhile fun c => !p c)

/-- Puts the separators into the text of a number. An exponent stays as it is. -/
def apply (f : NumberFormat) (text : List Char) : List Char :=
  if f = invariant then text
  else
    let (sign, rest) := splitSign text
    let (mantissa, exponent) := splitAt (fun c => c = 'e' || c = 'E') rest
    let (whole, fraction) := splitAt (· = '.') mantissa
    let fraction :=
      match fraction with
      | _ :: digits => f.decimalSeparator :: digits
      | [] => []
    sign ++ f.grouped whole ++ fraction ++ exponent

def int (f : NumberFormat) (v : Int) : String :=
  let digits := Decimal.digitsOf v.natAbs
  String.ofList (f.apply (if v < 0 then '-' :: digits else digits))

def float (f : NumberFormat) (x : Float) (k : FloatKind) : String :=
  if x.isNaN then "NaN"
  else if x.isInf then (if 0 < x then "Infinity" else "-Infinity")
  else String.ofList (f.apply (Decimal.plain k x))

end NumberFormat

end Stencil
