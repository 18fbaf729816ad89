import Stencil.Fault.Diagnostic
import Stencil.Scope
set_option autoImplicit false

namespace Stencil

structure NameRequest where
  receiver : Typed
  name : String
  qualifier : Option String
  span : Span
  caseSensitive : Bool
  strict : Bool

abbrev Resolver : Type := NameRequest → Except Diagnostic (Option Typed)

structure Setting where
  host : Host
  world : World
  scope : Scope
  types : Table NamedType
  namespaces : List String
  /-- Asked in turn before members of the receiver are looked up. -/
  resolvers : List Resolver
  caseSensitive : Bool
  /-- Whether an unresolved name is a fault; otherwise it is the empty text. -/
  strict : Bool

namespace Setting

def const (s : Setting) (v : Value) : Typed := .const s.world v

def unresolved (s : Setting) (f : Fault) (span : Span) : Except Diagnostic Typed :=
  if s.strict then .error (.of f span) else .ok .empty

def lookup (s : Setting) (name : String) : Option (Nat × Binding) :=
  s.scope.lookup s.host s.world s.caseSensitive name

def receiver (s : Setting) : Typed := ⟨.context 0, s.scope.current.context⟩

end Setting

namespace Typed

/-- Makes an expression yield a given kind. Everything can become a truth value or a text; otherwise there
must be an implicit conversion. -/
def coerceTo (t : Typed) (k : Kind) (span : Span) : Except Diagnostic Typed :=
  if t.kind.assignable k then .ok t
  else match k with
    | .bool => .ok ⟨.toBool t.code, .bool⟩
    | .text => .ok ⟨.toText t.code, .text⟩
    | k =>
      if (t.kind.implicitCost k).isSome then .ok ⟨.convert t.code k, k⟩
      else .error (.of (.wrongKind k t.kind) span)

end Typed

end Stencil
