set_option autoImplicit false

namespace Stencil

inductive Json where
  | null
  | bool (b : Bool)
  /-- An integer written without fraction or exponent that fits 64 bits. -/
  | int (v : Int)
  | float (x : Float)
  | str (s : String)
  | arr (items : List Json)
  | obj (members : List (String × Json))
deriving Repr, Inhabited

namespace Json

def get? (j : Json) (name : String) : Option Json :=
  match j with
  | obj ms => (ms.reverse.find? fun m => m.1 == name).map (·.2)
  | _ => none

end Json

end Stencil
