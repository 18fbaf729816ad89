import Stencil.Code
import Stencil.Text.Quoted
/-!
Texts that show how a thing is made, for diagnosis. Unlike the text a template writes, they tell a number
from its spelling and a kind from another.
-/
set_option autoImplicit false

namespace Stencil

def inspectAll (items : List String) : String := "[" ++ ", ".intercalate items ++ "]"

mutual

def Value.inspect (w : World) : Value → String
  | .null => "null"
  | .bool b => if b then "true" else "false"
  | .int v k => toString v ++ k.name
  | .float x k => Decimal.diagnosticText x ++ k.name
  | .text s => Text.quoted s
  | .pattern r => "r" ++ Text.quoted r.source
  | .enum t v =>
    match t.nameOf? v with
    | some n => t.name.name ++ "." ++ n
    | none => t.name.name ++ "(" ++ toString v ++ ")"
  | .list items => inspectAll (Value.inspectList w items)
  | .object ref => "<" ++ (w.object ref).typeName.name ++ ">"
  | .function _ => "<function>"

def Value.inspectList (w : World) : List Value → List String
  | [] => []
  | v :: vs => v.inspect w :: Value.inspectList w vs

end

def HostType.inspect (t : HostType) : String :=
  "TypeInfo \x7b name: " ++ Text.quoted t.name.full ++
    ", fields: " ++ inspectAll (t.fields.names.map Text.quoted) ++
    ", dynamic: " ++ (if t.isDynamic then "true" else "false") ++ ", .. \x7d"

def Fragment.inspect (f : Fragment) : String :=
  "Fragment \x7b name: " ++ Text.quoted f.name ++ ", params: " ++ toString f.params.length ++ ", .. \x7d"

def Step.inspect : Step → String
  | .text s => "Literal(" ++ Text.quoted s ++ ")"
  | .emit _ => "Expr"
  | _ => "Run"

def Body.inspect (b : Body) : String := inspectAll (b.map Step.inspect)

end Stencil
