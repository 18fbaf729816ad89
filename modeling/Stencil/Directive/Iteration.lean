import Stencil.Directive.Section
set_option autoImplicit false

namespace Stencil.Directive

/-- Writes its body once per element, with the element as context; without elements, what follows
`else`. -/
def iteration : Directive (Invocation → Compile Step) where
  name := "each"
  words := ["else"]
  body := fun _ => .nested
  action := fun i => do
    if i.tag.args.isEmpty then throw (i.fault (.requires "each" "an expression"))
    let source ← Compile.expression i.tag.args i.tag.argsSpan
    let c ← read
    match c.host.element? c.world source.kind with
    | none => throw (.of (.notIterable source.kind) i.tag.argsSpan)
    | some element =>
      let (first, otherwise) ← i.splitOn "else"
      let body ← Compile.withFrame element .readOnly fun _ => first.compile
      let fallback ← match otherwise with
        | some s => s.compile
        | none => pure []
      return .each source.code body fallback

end Stencil.Directive
