import Stencil.Failure
set_option autoImplicit false

namespace Stencil.Value

/-- Converts a value where that loses nothing; a list is converted element by element. -/
def convert (w : World) (target : Kind) (v : Value) : Except Failure Value :=
  let mismatch : Except Failure Value := .error (.mismatch target.display (v.kind w).display)
  if (v.kind w).assignable target then .ok v
  else match target with
    | .int k =>
      match v with
      | int n _ => if k.contains n then .ok (int n k) else mismatch
      | enum _ n => if k.contains n then .ok (int n k) else mismatch
      | _ => mismatch
    | .float k =>
      match v with
      | int n _ => .ok (rounded (Decimal.ofInt n) k)
      | float x .f32 => if k = .f64 then .ok (float x .f64) else mismatch
      | _ => mismatch
    | .list element =>
      match v with
      | list items => do return list (← items.mapM (convert w element))
      | _ => mismatch
    | _ => mismatch

def elements (w : World) : Value → Except Failure (List Value)
  | null => .ok []
  | list items => .ok items
  | text s => .ok (s.toList.map fun c => text (String.singleton c))
  | object ref =>
    match (w.object ref).items with
    | some items => .ok items
    | none => .error (.mismatch "enumerable" (w.object ref).typeName.name)
  | v => .error (.mismatch "enumerable" (v.kind w).display)

end Stencil.Value
