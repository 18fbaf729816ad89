import Stencil.Table
import Stencil.Numeric.IntKind
import Stencil.Numeric.FloatKind
import Stencil.Pattern.Marked
import Stencil.Pattern.Parser
import Stencil.Decimal.Reading
/-!
Values of the expression language. Objects and functions are references: two of them are the same when
the reference is.
-/
set_option autoImplicit false

namespace Stencil

structure TypeName where
  ns : Option String
  name : String
deriving DecidableEq, Repr, Inhabited

def TypeName.full (t : TypeName) : String :=
  match t.ns with
  | some ns => ns ++ "." ++ t.name
  | none => t.name

structure EnumType where
  name : TypeName
  underlying : IntKind
  variants : Table Int
deriving Repr, Inhabited

def EnumType.nameOf? (t : EnumType) (v : Int) : Option String :=
  (t.variants.entries.find? fun e => e.2 == v).map (·.1)

def EnumType.variant? (t : EnumType) (caseSensitive : Bool) (name : String) : Option Int :=
  t.variants.lookup caseSensitive name

structure Regex where
  source : String
  pattern : Pattern
deriving Repr, Inhabited

inductive Value where
  | null
  | bool (b : Bool)
  | int (v : Int) (kind : IntKind)
  | float (x : Float) (kind : FloatKind)
  | text (s : String)
  | pattern (r : Regex)
  | enum (type : EnumType) (v : Int)
  | list (items : List Value)
  | object (ref : Nat)
  | function (ref : Nat)
deriving Repr, Inhabited

namespace Value

def wrapped (v : Int) (k : IntKind) : Value := int (k.wrap v) k

def rounded (x : Float) (k : FloatKind) : Value := float (k.round x) k

def isNull : Value → Bool
  | null => true
  | _ => false

def toInt? : Value → Option Int
  | int v _ => some v
  | enum _ v => some v
  | _ => none

def toFloat? : Value → Option Float
  | float x _ => some x
  | int v _ => some (Decimal.ofInt v)
  | enum _ v => some (Decimal.ofInt v)
  | _ => none

def toText? : Value → Option String
  | text s => some s
  | _ => none

def toBool? : Value → Option Bool
  | bool b => some b
  | _ => none

def toList? : Value → Option (List Value)
  | list items => some items
  | _ => none

def truth : Value → Bool
  | null => false
  | bool b => b
  | int v _ => v != 0
  | float x _ => x != 0.0
  | text s => !s.isEmpty
  | enum _ v => v != 0
  | pattern _ | list _ | object _ | function _ => true

end Value

end Stencil
