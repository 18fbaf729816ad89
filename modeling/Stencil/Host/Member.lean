import Stencil.Host.Builtin
import Stencil.Host.Overload
import Stencil.Value.Convert
set_option autoImplicit false

namespace Stencil.Host

/-- The member of a value: a field, a static member, or a variable. An object with variables answers
every name, an unknown one with null. -/
def member (h : Host) (caseSensitive : Bool) (v : Value) (name : String) (w : World) :
    Except Failure (Option Value) :=
  if v.isNull then .ok (some .null)
  else match h.describe w (v.kind w) with
    | none => .ok none
    | some t =>
      match t.field? caseSensitive name with
      | some f => (f.read w v).map some
      | none =>
        match t.static? caseSensitive name with
        | some s => .ok (some s.value)
        | none =>
          match v with
          | .object ref =>
            match (w.object ref).vars with
            | some vs => .ok (some ((vs.get? caseSensitive name).getD .null))
            | none => .ok none
          | _ => .ok none

def callValue (h : Host) (callee : Value) (name : String) (args : List Value) : Act Value := do
  match callee with
  | .function ref => h.call ref args
  | v =>
    let w ← get
    throw (.notInvocable name ("a value of kind '" ++ (v.kind w).display ++ "' is not a function"))

def convertArgs (w : World) : List Kind → List Value → Except Failure (List Value)
  | p :: ps, a :: as => do return (← a.convert w p) :: (← convertArgs w ps as)
  | _, _ => .ok []

def runMethod (m : Method) (v : Value) (args : List Value) : Act Value := do
  let args ← Act.ofWorld fun w => convertArgs w m.params args
  m.run v args

/-- Calls the member of a value: a method chosen by the arguments, else the member's own value. -/
def invoke (h : Host) (caseSensitive : Bool) (v : Value) (name : String) (args : List Value) : Act Value := do
  let w ← get
  let byMember : Act Value := do
    match ← Act.ofWorld (h.member caseSensitive v name) with
    | some callee => h.callValue callee name args
    | none => throw (.unresolved name)
  if v.isNull then return .null
  match h.describe w (v.kind w) with
  | none => byMember
  | some t =>
    match Selection.select (t.methodsNamed caseSensitive name) (args.map (Value.kind w)) with
    | .exact m => runMethod m v args
    | .converted m => runMethod m v args
    | .ambiguous ms =>
      throw (.notInvocable name ("ambiguous between " ++ " and ".intercalate (ms.map Method.signature)))
    | .none =>
      if t.hasMethod caseSensitive name then
        throw (.notInvocable name
          ("no overload takes " ++ toString args.length ++ " argument(s) of these kinds"))
      else byMember

def position (w : World) (i : Value) (length : Nat) : Except Failure Nat :=
  match i.toInt? with
  | none => .error (.mismatch "integer index" (i.kind w).display)
  | some n => if n < 0 || (length : Int) ≤ n then .error (.indexOutOfRange n length) else .ok n.toNat

/-- The part of a value at a position, or the variable of an object by its name. -/
def index (w : World) (v i : Value) : Except Failure Value :=
  match v with
  | .null => .ok .null
  | .list items => do return items.getD (← position w i items.length) .null
  | .text s =>
    let cs := s.toList
    do return .text (String.ofList (cs[← position w i cs.length]?).toList)
  | .object ref =>
    let o := w.object ref
    match o.vars, i with
    | some vs, .text name => .ok ((vs.get? true name).getD .null)
    | _, _ =>
      match o.items with
      | some items => do return items.getD (← position w i items.length) .null
      | none => .error (.mismatch "indexable" o.typeName.name)
  | v => .error (.mismatch "indexable" (v.kind w).display)

end Stencil.Host
