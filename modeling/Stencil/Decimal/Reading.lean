set_option autoImplicit false

namespace Stencil.Decimal

def digitValue (c : Char) : Nat :=
  if c.isDigit then c.toNat - '0'.toNat
  else if 'a' ≤ c && c ≤ 'f' then c.toNat - 'a'.toNat + 10
  else if 'A' ≤ c && c ≤ 'F' then c.toNat - 'A'.toNat + 10
  else 0

def valueOf (base : Nat) (ds : List Char) : Nat := ds.foldl (fun n c => base * n + digitValue c) 0

/-- The double nearest to `mantissa * 10 ^ power`; a tie goes to the even neighbour. Powers outside the
range of doubles are cut off before any large power of ten is built. -/
def nearest (mantissa : Nat) (power : Int) : Float :=
  if mantissa = 0 then 0.0
  else
    let magnitude := power + (Nat.toDigits 10 mantissa).length
    if 400 < magnitude then 1.0 / 0.0
    else if magnitude < -400 then 0.0
    else if 0 ≤ power then Float.ofScientific mantissa false power.toNat
    else Float.ofScientific mantissa true (-power).toNat

def ofInt (v : Int) : Float := if v < 0 then -nearest v.natAbs 0 else nearest v.natAbs 0

/-- Splits off the longest run of decimal digits. -/
def spanDigits (cs : List Char) : List Char × List Char := cs.span Char.isDigit

def readReal? (cs : List Char) : Option Float :=
  let (whole, rest) := spanDigits cs
  let (fraction, rest) := match rest with
    | '.' :: rest => spanDigits rest
    | rest => ([], rest)
  let power? : Option Int := match rest with
    | [] => some 0
    | c :: rest =>
      if c = 'e' || c = 'E' then
        let (negative, ds) := match rest with
          | '-' :: ds => (true, ds)
          | '+' :: ds => (false, ds)
          | ds => (false, ds)
        if ds.isEmpty || !ds.all Char.isDigit then none
        else
          let n : Int := valueOf 10 ds
          some (if negative then -n else n)
      else none
  if whole.isEmpty && fraction.isEmpty then none
  else power?.map fun power => nearest (valueOf 10 (whole ++ fraction)) (power - fraction.length)

def readNat? (cs : List Char) : Option Nat :=
  if cs.isEmpty || !cs.all Char.isDigit then none else some (valueOf 10 cs)

end Stencil.Decimal
