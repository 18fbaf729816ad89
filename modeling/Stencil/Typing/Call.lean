import Stencil.Host.Overload
import Stencil.Typing.Resolve
set_option autoImplicit false

namespace Stencil.Setting

def selectMethod (ms : List Method) (name : String) (args : List Typed) (span : Span) :
    Except Diagnostic (Option Method) :=
  match Selection.select ms (args.map (·.kind)) with
  | .exact m | .converted m => .ok (some m)
  | .none => .ok none
  | .ambiguous ms => .error (.of (.ambiguousCall name (ms.map Method.signature)) span)

def noOverload (ms : List Method) (name : String) (args : List Typed) (span : Span) : Diagnostic :=
  .of (.noOverload name (args.map (·.kind)) (ms.map Method.signature)) span

def coerceArgs (span : Span) : List Typed → List Kind → Except Diagnostic (List Code)
  | t :: ts, k :: ks => do return (← t.coerceTo k span).code :: (← coerceArgs span ts ks)
  | _, _ => .ok []

def callMethodOn (receiver : Code) (m : Method) (args : List Typed) (span : Span) :
    Except Diagnostic Typed := do
  let args ← coerceArgs span args m.params
  return ⟨.method receiver m args, m.returns⟩

def callTyped (callee : Typed) (name : String) (args : List Typed) (span : Span) : Except Diagnostic Typed :=
  match callee.kind with
  | .function | .any | .null => .ok ⟨.callValue callee.code name (args.map (·.code)), .any⟩
  | k => .error (.of (.notCallable name k) span)

/-- A call of a name on a receiver: a method, or else a member that is a function. -/
def callMember (s : Setting) (receiver : Typed) (name : String) (nameSpan : Span) (args : List Typed)
    (span : Span) : Except Diagnostic Typed := do
  match receiver.kind with
  | .any | .null =>
    return ⟨.lateCall receiver.code name (args.map (·.code)) s.caseSensitive s.strict, .any⟩
  | k =>
    let candidates := match s.host.describe s.world k with
      | some t => t.methodsNamed s.caseSensitive name
      | none => []
    match ← selectMethod candidates name args span with
    | some m => callMethodOn receiver.code m args span
    | none =>
      match ← s.resolve (s.request receiver name none nameSpan) with
      | some callee => callTyped callee name args span
      | none =>
        if candidates.isEmpty then s.unresolved (.noMethod k name) nameSpan
        else throw (noOverload candidates name args span)

/-- A call of a static method of a type, or of a static member that is a function. -/
def callStatic (s : Setting) (t : NamedType) (name : String) (nameSpan : Span) (args : List Typed)
    (span : Span) : Except Diagnostic Typed := do
  match t with
  | .host id _ =>
    let info := s.host.type id
    let statics := (info.methodsNamed s.caseSensitive name).filter fun m => m.isStatic
    match ← selectMethod statics name args span with
    | some m => callMethodOn (.const .null) m args span
    | none =>
      match info.static? s.caseSensitive name with
      | some member => callTyped (s.const member.value) name args span
      | none =>
        if statics.isEmpty then s.unresolved (.noStaticMethod t.full name) nameSpan
        else throw (noOverload statics name args span)
  | .enum _ => s.unresolved (.noStaticMethod t.full name) nameSpan

def callName (s : Setting) (name : String) (nameSpan : Span) (args : List Typed) (span : Span) :
    Except Diagnostic Typed := do
  match s.lookup name with
  | some (_, .fragment f) => callFragment f args span
  | some (_, .slot _ _ _) | some (_, .variable _ _ _) =>
    callTyped (← s.name name nameSpan) name args span
  | some (_, .hidden) | none => s.callMember s.receiver name nameSpan args span

def staticCallee? (s : Setting) (path : List Expr.Segment) :
    Except Diagnostic (Option (NamedType × Expr.Segment)) := do
  match path with
  | first :: _ :: _ =>
    match ← s.head first path with
    | some (.type t, n) =>
      match path.drop n with
      | [m] => return some (t, m)
      | _ => return none
    | _ => return none
  | _ => return none

end Stencil.Setting
