import Stencil.Run
set_option autoImplicit false

namespace Stencil

/-- A compiled template, with the number of slots it fills and the format of its numbers. -/
structure Template where
  body : Body
  slots : Nat
  format : NumberFormat

structure Pass where
  stopped : Bool
  passCap : Option Nat
deriving DecidableEq, Repr, Inhabited

/-- A run of a template: how it ended, what it wrote until then, and the world after it. -/
structure Rendering where
  outcome : Except Failure Pass
  out : String
  world : World

namespace Template

/-- Runs a template in a context. Its number format is in force while it runs. -/
def run (t : Template) (h : Host) (context : Value) (w : World) : Rendering :=
  let (r, e) := Step.runAll h t.body (Env.init context t.slots { w with format := t.format })
  let world := { e.world with format := w.format }
  match r with
  | .ok () => ⟨.ok ⟨false, e.passCap⟩, e.out, world⟩
  | .error .stop => ⟨.ok ⟨true, e.passCap⟩, e.out, world⟩
  | .error (.fail f) => ⟨.error f, e.out, world⟩

end Template

end Stencil
