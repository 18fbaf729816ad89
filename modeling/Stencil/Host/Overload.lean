import Stencil.Host.Basic
/-!
Choice among methods of one name. A method whose parameters are exactly the kinds of the arguments wins
at once; otherwise the one with the most exact parameters among those the arguments can be converted for.
-/
set_option autoImplicit false

namespace Stencil

inductive Selection where
  | exact (m : Method)
  | converted (m : Method)
  | none
  | ambiguous (ms : List Method)

namespace Selection

/-- Whether the parameters are exactly the given kinds. -/
def fits : List Kind → List Kind → Bool
  | [], [] => true
  | p :: ps, a :: as => a == p && fits ps as
  | _, _ => false

def score? : List Kind → List Kind → Option Nat
  | [], [] => some 0
  | p :: ps, a :: as => do
    let cost ← a.implicitCost p
    let rest ← score? ps as
    return if cost = 0 then rest + 1 else rest
  | _, _ => Option.none

/-- The best methods so far with their score, once `m` has been looked at. -/
def consider (args : List Kind) (best : List Method × Nat) (m : Method) : List Method × Nat :=
  match score? m.params args with
  | some score =>
    if best.1.isEmpty || best.2 < score then ([m], score)
    else if score = best.2 then (best.1 ++ [m], best.2)
    else best
  | Option.none => best

def best (args : List Kind) (ms : List Method) : List Method := (ms.foldl (consider args) ([], 0)).1

def select (ms : List Method) (args : List Kind) : Selection :=
  let applicable := ms.filter fun m => m.params.length == args.length
  match applicable.find? fun m => fits m.params args with
  | some m => exact m
  | Option.none =>
    match best args applicable with
    | [] => none
    | [m] => converted m
    | ms => ambiguous ms

end Selection

end Stencil
