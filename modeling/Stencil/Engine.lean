import Stencil.Directive.Standard
import Stencil.Template.Basic
set_option autoImplicit false

namespace Stencil

structure Engine where
  directives : Directives
  options : Options
  resolvers : List Resolver
  types : Table NamedType
  host : Host

inductive EngineError where
  | fault (d : Diagnostic)
  | failure (f : Failure)

def EngineError.display : EngineError → String
  | fault d => d.display
  | failure f => f.message

structure PassText where
  text : String
  pass : Pass

def hasMarker (text : String) : Bool := Text.occurs marker text.toList

/-- Repeats passes until no marker is left, a pass is stopped, or there were as many passes as allowed. A
pass may lower that number; `lowered` says whether one did. -/
def settleFrom {σ ε : Type} (pass : String → σ → Except ε PassText × σ) (unstable : Nat → ε)
    (cap passes : Nat) (lowered : Bool) (text : String) (s : σ) : Except ε String × σ :=
  if !hasMarker text then (.ok text, s)
  else if _h : cap ≤ passes then
    (if lowered then .ok text else .error (unstable passes), s)
  else
    match pass text s with
    | (.error e, s) => (.error e, s)
    | (.ok r, s) =>
      if r.pass.stopped then (.ok r.text, s)
      else
        let asked := r.pass.passCap.getD cap
        settleFrom pass unstable (min asked cap) (passes + 1) (lowered || asked < cap) r.text s
termination_by cap - passes
decreasing_by omega

def settle {σ ε : Type} (pass : String → σ → Except ε PassText × σ) (unstable : Nat → ε) (cap : Nat)
    (text : String) (s : σ) : Except ε String × σ :=
  settleFrom pass unstable cap 0 false text s

namespace Engine

def default : Engine := ⟨.standard, .default, [], .empty, .empty⟩

instance : Inhabited Engine := ⟨default⟩

def compile (e : Engine) (source : String) (context : Kind) (w : World) : Except Diagnostic Template :=
  let src : Source := ⟨source⟩
  let compiler : Compiler := ⟨src, e.host, w, e.types, e.resolvers, e.options⟩
  let names : Names := ⟨.init e.host w context, e.options.impliedNamespaces⟩
  match (Compile.body e.directives (Node.read e.directives 0 src.chars)) compiler names with
  | .ok (body, n) => .ok ⟨body, n.scope.slots, e.options.numberFormat⟩
  | .error d => .error (d.locate src)

def pass (e : Engine) (context : Value) (source : String) (w : World) :
    Except EngineError PassText × World :=
  match e.compile source (context.kind w) w with
  | .error d => (.error (.fault d), w)
  | .ok t =>
    let r := t.run e.host context w
    (match r.outcome with
      | .ok p => .ok ⟨r.out, p⟩
      | .error f => .error (.failure f), r.world)

def render (e : Engine) (source : String) (context : Value) (w : World) :
    Except EngineError String × World :=
  let (r, w) := e.pass context source w
  (r.map (·.text), w)

def renderStable (e : Engine) (source : String) (context : Value) (w : World) :
    Except EngineError String × World :=
  settle (e.pass context) (fun n => .failure (.unstable n)) e.options.passes source w

end Engine

end Stencil
