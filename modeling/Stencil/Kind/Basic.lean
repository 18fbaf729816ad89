import Stencil.Value.Basic
/-!
Kinds: what is known of a value before it exists. Enum and object kinds count as equal when their full
names are.
-/
set_option autoImplicit false

namespace Stencil

/-- The type of an object: a declared one, or the type of a record, which its entries decide. -/
inductive ObjectType where
  | declared (id : Nat) (name : TypeName)
  | record (ref : Nat)
deriving DecidableEq, Repr, Inhabited

def ObjectType.recordName : TypeName := ⟨none, "Record"⟩

def ObjectType.name : ObjectType → TypeName
  | declared _ n => n
  | record _ => recordName

inductive Kind where
  | null
  | bool
  | int (k : IntKind)
  | float (k : FloatKind)
  | text
  | pattern
  | enum (t : EnumType)
  | list (element : Kind)
  | object (t : ObjectType)
  | function
  /-- Decided when the value exists. -/
  | any
deriving Repr, Inhabited

namespace Kind

def same : Kind → Kind → Bool
  | null, null | bool, bool | text, text | pattern, pattern | function, function | any, any => true
  | int a, int b => a == b
  | float a, float b => a == b
  | enum a, enum b => a.name.full == b.name.full
  | list a, list b => a.same b
  | object a, object b => a.name.full == b.name.full
  | _, _ => false

instance : BEq Kind := ⟨same⟩

def isNumeric : Kind → Bool
  | int _ | float _ => true
  | _ => false

def isIntegral : Kind → Bool
  | int _ => true
  | _ => false

def isAny : Kind → Bool
  | any => true
  | _ => false

def isNull : Kind → Bool
  | null => true
  | _ => false

def isNullable : Kind → Bool
  | null | text | pattern | list _ | object _ | function | any => true
  | bool | int _ | float _ | enum _ => false

def integral? : Kind → Option IntKind
  | int k => some k
  | enum t => some t.underlying
  | _ => none

/-- Whether every value of the first kind can stand, unchanged, where the second is asked for. -/
def assignable : Kind → Kind → Bool
  | _, any => true
  | null, t => t.isNullable
  | list a, list b => a.assignable b
  | a, b => a == b

def display : Kind → String
  | null => "null"
  | bool => "bool"
  | int k => k.name
  | float k => k.name
  | text => "string"
  | pattern => "regex"
  | enum t => t.name.name
  | list e => "list<" ++ e.display ++ ">"
  | object t => t.name.name
  | function => "function"
  | any => "object"

def number? : Kind → Option Kind
  | float k => some (float k)
  | int k => some (int k)
  | enum t => some (int t.underlying)
  | _ => none

/-- The kind in which two numbers meet. Null meets a number in the number's kind. -/
def promote : Kind → Kind → Option Kind
  | null, k => k.number?
  | k, null => k.number?
  | float a, float b => some (float (a.max b))
  | float a, k => k.integral?.map fun _ => float a
  | k, float b => k.integral?.map fun _ => float b
  | a, b => do return int ((← a.integral?).promote (← b.integral?))

/-- Price of passing a value of one kind where another is asked for; none when it cannot be passed. -/
def implicitCost (source target : Kind) : Option Nat :=
  if source == target then some 0
  else match source, target with
    | any, _ => some 3
    | _, any => some 2
    | null, t => if t.isNullable then some 1 else none
    | int a, int b => if a.within b then some 1 else none
    | int _, float _ => some 2
    | float .f32, float .f64 => some 1
    | list a, list b => if (list a).assignable (list b) then some 1 else none
    | _, _ => none

end Kind

end Stencil
