import Stencil.Directive.Section
set_option autoImplicit false

namespace Stencil.Directive

def literal : Directive (Invocation → Compile Step) where
  name := "literal"
  words := []
  body := fun _ => .verbatim
  action := fun i => do
    i.expectNoArgs
    return .text (String.join (i.sections.map (·.text)))

def comment : Directive (Invocation → Compile Step) where
  name := "comment"
  words := []
  body := fun _ => .verbatim
  action := fun _ => return .text ""

end Stencil.Directive
