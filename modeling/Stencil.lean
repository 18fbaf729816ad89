import Stencil.Directive.Sample
import Stencil.Json.Printer
import Stencil.Main
import Stencil.Proofs.Expr.Literals
import Stencil.Proofs.Expr.Precedence
import Stencil.Proofs.Expr.Progress
import Stencil.Proofs.Host.Passing
import Stencil.Proofs.Host.Positions
import Stencil.Proofs.Numeric.Grouping
import Stencil.Proofs.Operator.Ordering
import Stencil.Proofs.Run.Isolation
import Stencil.Proofs.Template.Bodies
import Stencil.Proofs.Template.Contexts
import Stencil.Proofs.Template.Footprint
import Stencil.Proofs.Template.Leniency
import Stencil.Proofs.Template.Quotation
import Stencil.Proofs.Template.Registration
import Stencil.Proofs.Template.Search
import Stencil.Proofs.Template.Spelling
import Stencil.Proofs.Template.Stability
import Stencil.Proofs.Text.Lines
import Stencil.Proofs.Token.Tiling
import Stencil.Proofs.Typing.Branches
import Stencil.Proofs.Typing.Coalescing
import Stencil.Proofs.Typing.EqualKinds
import Stencil.Proofs.Typing.LateBinding
import Stencil.Session
