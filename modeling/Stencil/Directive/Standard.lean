import Stencil.Directive.Conditional
import Stencil.Directive.Definition
import Stencil.Directive.Iteration
import Stencil.Directive.Scoping
import Stencil.Directive.Signal
import Stencil.Directive.Verbatim
set_option autoImplicit false

namespace Stencil

def Directives.standard : Directives :=
  [Directive.conditional, Directive.iteration, Directive.block, Directive.letBlock, Directive.define,
    Directive.undef, Directive.literal, Directive.comment, Directive.assertion, Directive.failure,
    Directive.pragma, Directive.using_].foldl Registry.insert Registry.empty

end Stencil
