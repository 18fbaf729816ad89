import Stencil.Directive.Section
set_option autoImplicit false

namespace Stencil.Directive

/-- Writes its body in another context, or in the same one; definitions inside end with it. -/
def block : Directive (Invocation → Compile Step) where
  name := "block"
  words := []
  body := fun _ => .nested
  action := fun i => do
    let context ← if i.tag.args.isEmpty then pure none
      else some <$> Compile.expression i.tag.args i.tag.argsSpan
    let kind ← match context with
      | some t => pure t.kind
      | none => Compile.contextKind
    let s ← i.body (.requires "block" "a body")
    let body ← Compile.withFrame kind .declarations fun _ => s.compile
    return .block ((context.map (·.code)).getD (.context 0)) body

def using_ : Directive (Invocation → Compile Step) where
  name := "using"
  words := []
  body := fun _ => .none
  action := fun i => do
    if i.tag.args.isEmpty then throw (i.fault (.requires "using" "a namespace"))
    let ns ← Compile.arguments Arguments.readNamespace i.tag.args i.tag.argsSpan
    Compile.addNamespace ns.name
    return .text ""

end Stencil.Directive
