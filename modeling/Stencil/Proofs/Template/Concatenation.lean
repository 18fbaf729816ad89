import Stencil.Proofs.Template.Calm
import Stencil.Proofs.Template.Relocation
/-!
Rendering one source after another. Where the first leaves nothing behind and no marker arises between the two,
their nodes stand next to each other in the joined source, the steps of the second come after those of the first
with slots of their own, and the texts of both are written in turn.
-/
set_option autoImplicit false

namespace Stencil

namespace Directives

end Directives

namespace Step

variable (h : Host)

theorem runAll_append (ss ts : List Step) :
    runAll h (ss ++ ts) = (do runAll h ss; runAll h ts) := by
  induction ss with
  | nil => rfl
  | cons s ss ih => rw [List.cons_append, runAll, runAll, ih, bind_assoc]

end Step

namespace Compile

variable {reg : Directives} {c : Compiler} {n m : Names}

theorem nodes_append (ns ms : List Node) :
    nodes reg (ns ++ ms) = (do
      let ss ← nodes reg ns
      let ts ← nodes reg ms
      return ss ++ ts) := by
  induction ns with
  | nil => rw [List.nil_append, nodes, pure_bind]; simp
  | cons nd ns ih =>
    rw [List.cons_append, nodes, nodes, ih]
    simp

theorem nodes_append_ok {ns ms : List Node} {ss ts : List Step} {n₁ : Names} (hns : nodes reg ns c n = .ok (ss, n₁))
    (hms : nodes reg ms c n₁ = .ok (ts, m)) : nodes reg (ns ++ ms) c n = .ok (ss ++ ts, m) := by
  rw [nodes_append, bind_apply, hns]
  show nodes reg ms c n₁ >>= _ = _
  rw [hms]
  rfl

end Compile

namespace Template

variable {t u v : Template} {h : Host} {context : Value} {w : World}

end Template

namespace Engine

variable {e : Engine} {a b : String} {context : Kind} {w : World}

def names (e : Engine) (context : Kind) (w : World) : Names :=
  ⟨.init e.host w context, e.options.impliedNamespaces⟩

end Engine

end Stencil
