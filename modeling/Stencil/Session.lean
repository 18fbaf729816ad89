import Stencil.Engine
/-!
Work with one engine over time: templates are compiled once and run often, and the variables of the
context can change in between.
-/
set_option autoImplicit false

namespace Stencil

structure Session where
  engine : Engine
  context : Value
  templates : Table Template

namespace Session

def entries? (s : Session) (w : World) : Option (Table Value) :=
  match s.context with
  | .object ref => (w.object ref).entries?
  | _ => none

def parse (s : Session) (id source : String) (context : Kind) (w : World) :
    Except Diagnostic (Session × Template) := do
  let t ← s.engine.compile source context w
  return ({ s with templates := s.templates.set id t }, t)

def invoke? (s : Session) (id : String) (context : Value) (w : World) : Option Rendering := do
  return (← s.templates.get? id).run s.engine.host context w

def set (s : Session) (name : String) (v : Value) (w : World) : World :=
  match s.context, s.entries? w with
  | .object ref, some _ => w.setVariable ref name v
  | _, _ => w

def unset (s : Session) (name : String) (w : World) : World :=
  match s.context, s.entries? w with
  | .object ref, some _ => w.unsetVariable ref name
  | _, _ => w

def has? (s : Session) (name : String) (w : World) : Option Bool :=
  (s.entries? w).map fun es => (es.get? name).isSome

end Session

end Stencil
