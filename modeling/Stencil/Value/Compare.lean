import Stencil.World
/-!
Equality and order of values. A text equals whatever has that text; otherwise numbers compare as numbers,
floats after rounding to the kind in which the two meet.
-/
set_option autoImplicit false

namespace Stencil.Value

/-- The float kind in which two numbers meet when one of them is a float. -/
def floatMeet? : Value → Value → Option FloatKind
  | float _ a, float _ b => some (a.max b)
  | float _ a, r => r.toInt?.map fun _ => a
  | l, float _ b => l.toInt?.map fun _ => b
  | _, _ => none

def numericOrder? (l r : Value) : Option Ordering :=
  match l.toInt?, r.toInt? with
  | some a, some b => some (compare a b)
  | _, _ => do
    let k ← floatMeet? l r
    floatOrder? (k.round (← l.toFloat?)) (k.round (← r.toFloat?))

mutual

def equals (w : World) : Value → Value → Bool
  | null, null => true
  | null, _ => false
  | _, null => false
  | text a, text b => a == b
  | text a, r => a == r.display w
  | l, text b => l.display w == b
  | bool a, bool b => a == b
  | pattern a, pattern b => a.source == b.source
  | list a, list b => equalsAll w a b
  | object a, object b => a == b
  | function a, function b => a == b
  | l, r => numericOrder? l r == some .eq

def equalsAll (w : World) : List Value → List Value → Bool
  | [], [] => true
  | a :: as, b :: bs => equals w a b && equalsAll w as bs
  | _, _ => false

end

def order? : Value → Value → Option Ordering
  | text a, text b => some (compare a b)
  | bool a, bool b => some (compare a b)
  | l, r => numericOrder? l r

end Stencil.Value
