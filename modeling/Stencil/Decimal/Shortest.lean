set_option autoImplicit false

namespace Stencil.Decimal

structure Scientific where
  digits : Nat
  power : Int
deriving DecidableEq, Repr

/-- A positive binary number with the reals that round to it. In units of `2 ^ exponent` the number is
`4 * mantissa`, the reals reach from `4 * mantissa - below` to `4 * mantissa + 2`, and the ends belong to
them when the mantissa is even. -/
structure Interval where
  mantissa : Nat
  below : Nat
  exponent : Int
deriving Repr

namespace Interval

/-- Interval of a mantissa whose lowest exponent is `least`; `atPower` tells that the number is the least
one of its binary exponent, where the lower neighbour is nearer. -/
def make (mantissa : Nat) (exponent : Int) (atPower : Bool) : Interval :=
  { mantissa, below := if atPower then 1 else 2, exponent := exponent - 2 }

/-- Scales the interval to the grid of multiples of `10 ^ power`: the number, the lower end, the upper end
and the grid's unit, all over one denominator. -/
def onGrid (i : Interval) (power : Int) : Nat × Nat × Nat × Nat :=
  let up := Nat.pow 2 i.exponent.toNat * Nat.pow 10 (-power).toNat
  let unit := Nat.pow 2 (-i.exponent).toNat * Nat.pow 10 power.toNat
  (4 * i.mantissa * up, (4 * i.mantissa - i.below) * up, (4 * i.mantissa + 2) * up, unit)

/-- The multiple of `10 ^ power` inside the interval that is nearest to the number; of two at the same
distance the upper one. -/
def hit? (i : Interval) (power : Int) : Option Nat :=
  let (value, low, high, unit) := i.onGrid power
  let inside (d : Nat) : Bool :=
    if i.mantissa % 2 = 0 then low ≤ d * unit && d * unit ≤ high
    else low < d * unit && d * unit < high
  let d := value / unit
  match inside d, inside (d + 1) with
  | true, true => if 2 * (value - d * unit) < unit then some d else some (d + 1)
  | true, false => some d
  | false, true => some (d + 1)
  | false, false => none

def search (i : Interval) : Nat → Int → Scientific
  | 0, power => ⟨0, power⟩
  | n + 1, power =>
    match i.hit? power with
    | some d => ⟨d, power⟩
    | none => i.search n (power - 1)

def ceiling (i : Interval) : Int :=
  let binary := i.exponent + (Nat.log2 (4 * i.mantissa) : Int) + 1
  binary * 30103 / 100000 + 2

def shortest (i : Interval) : Scientific := i.search 30 i.ceiling

end Interval

def shortest64 (x : Float) : Scientific :=
  let n := x.toBits.toNat
  let biased : Nat := n / Nat.pow 2 52 % Nat.pow 2 11
  let fraction : Nat := n % Nat.pow 2 52
  if biased = 0 then (Interval.make fraction (-1074) false).shortest
  else (Interval.make (Nat.pow 2 52 + fraction) ((biased : Int) - 1075) (fraction = 0 && 1 < biased)).shortest

def shortest32 (x : Float) : Scientific :=
  let n := x.toFloat32.toBits.toNat
  let biased : Nat := n / Nat.pow 2 23 % Nat.pow 2 8
  let fraction : Nat := n % Nat.pow 2 23
  if biased = 0 then (Interval.make fraction (-149) false).shortest
  else (Interval.make (Nat.pow 2 23 + fraction) ((biased : Int) - 150) (fraction = 0 && 1 < biased)).shortest

end Stencil.Decimal
