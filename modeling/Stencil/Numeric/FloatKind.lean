set_option autoImplicit false

namespace Stencil

inductive FloatKind where
  | f32 | f64
deriving DecidableEq, Repr, Inhabited

namespace FloatKind

def name : FloatKind → String
  | f32 => "f32"
  | f64 => "f64"

/-- The integer nearest to `m / 2 ^ d`; a tie goes to the even one. -/
def nearestQuotient (m d : Nat) : Nat :=
  let q := m / Nat.pow 2 d
  let r := m % Nat.pow 2 d
  if 2 * r < Nat.pow 2 d then q
  else if Nat.pow 2 d < 2 * r then q + 1
  else q + q % 2

/-- How many bits of the mantissa a single lacks, by the biased exponent of a double. A single has 24 bits of
mantissa, and fewer below `2 ^ -126`. -/
def droppedBits (biased : Nat) : Nat := max 29 (926 - biased)

/-- Bits of the single nearest to a double, as a double. A mantissa rounded up to a power of two carries into
the exponent. -/
def singleBits (n : Nat) : Nat :=
  let sign := n / Nat.pow 2 63 * Nat.pow 2 63
  let biased := n / Nat.pow 2 52 % Nat.pow 2 11
  if biased = 2047 then n
  else if biased < 873 then sign
  else
    let dropped := droppedBits biased
    let mantissa := nearestQuotient (Nat.pow 2 52 + n % Nat.pow 2 52) dropped * Nat.pow 2 dropped
    let magnitude := (biased - 1) * Nat.pow 2 52 + mantissa
    if mantissa = 0 then sign
    else if magnitude < 1151 * Nat.pow 2 52 then sign + magnitude
    else sign + 2047 * Nat.pow 2 52

def round : FloatKind → Float → Float
  | f32, x => .ofBits (.ofNat (singleBits x.toBits.toNat))
  | f64, x => x

def max : FloatKind → FloatKind → FloatKind
  | f32, f32 => f32
  | _, _ => f64

end FloatKind

def floatOrder? (a b : Float) : Option Ordering :=
  if a < b then some .lt
  else if a == b then some .eq
  else if b < a then some .gt
  else none

structure Binary where
  negative : Bool
  mantissa : Nat
  exponent : Int
deriving Repr

def Binary.ofFloat (x : Float) : Binary :=
  let n := x.toBits.toNat
  let biased : Nat := n / Nat.pow 2 52 % Nat.pow 2 11
  let fraction : Nat := n % Nat.pow 2 52
  { negative := Nat.pow 2 63 ≤ n
    mantissa := if biased = 0 then fraction else Nat.pow 2 52 + fraction
    exponent := if biased = 0 then -1074 else (biased : Int) - 1075 }

def Binary.toFloat (b : Binary) : Float :=
  let x := (Float.ofNat b.mantissa).scaleB b.exponent
  if b.negative then -x else x

/-- Remainder of the quotient truncated toward zero. It is exact and takes the dividend's sign. -/
def floatRemainder (a b : Float) : Float :=
  if a.isNaN || b.isNaN || a.isInf || b == 0.0 then 0.0 / 0.0
  else if b.isInf || a == 0.0 then a
  else
    let x := Binary.ofFloat a
    let y := Binary.ofFloat b
    let e := min x.exponent y.exponent
    let m := x.mantissa * Nat.pow 2 (x.exponent - e).toNat
    let n := y.mantissa * Nat.pow 2 (y.exponent - e).toNat
    Binary.toFloat { negative := x.negative, mantissa := m % n, exponent := e }

end Stencil
