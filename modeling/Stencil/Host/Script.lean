import Stencil.Host.Basic
set_option autoImplicit false

namespace Stencil

/-- The entries an object keeps behind its fields. Only objects with such entries can be the receiver of a
typed member. -/
def Value.ownEntries (owner : TypeName) (w : World) (v : Value) : Except Failure (Table Value) :=
  match v with
  | .object ref =>
    match (w.object ref).members with
    | some t => .ok t
    | none => .error (.mismatch owner.name (w.object ref).typeName.name)
  | v => .error (.mismatch owner.name (v.kind w).display)

def Field.own (owner : TypeName) (name : String) (kind : Kind) : Field :=
  ⟨name, kind, fun w v => do return ((← v.ownEntries owner w).get? name).getD .null⟩

inductive Script where
  | echo (label : String)
  | const (v : Value)
  | fail (message : String)
  | arg (n : Nat)
  | sum
  /-- Gives values in turn, counting its calls in a tally. -/
  | cycle (tally : Nat) (values : List Value)
  | entry (name : String)
  | nothing
deriving Inhabited

namespace Script

def shown (w : World) (v : Value) : String := (v.kind w).display ++ ":" ++ v.display w

def tick (tally : Nat) : Act Nat := do
  let w ← get
  set { w with tallies := w.tallies.modify tally (· + 1) }
  return w.tallies.getD tally 0

def run : Script → Value → List Value → Act Value
  | echo label, _, args => do
    let w ← get
    return .text (label ++ "(" ++ ", ".intercalate (args.map (shown w)) ++ ")")
  | const v, _, _ => return v
  | fail m, _, _ => throw (.host m)
  | arg n, _, args => return args.getD n .null
  | sum, _, args => return .wrapped ((args.filterMap Value.toInt?).foldl (· + ·) 0) .i64
  | cycle tally vs, _, _ => do return vs.getD ((← tick tally) % vs.length) .null
  | entry name, .object ref, _ => do
    let w ← get
    return (((w.object ref).members.getD .empty).get? name).getD .null
  | _, _, _ => return .null

end Script

/-- A method that follows a script; only a static one takes any receiver. -/
def Method.scripted (owner : TypeName) (name : String) (params : List Kind) (returns : Kind) (isStatic : Bool)
    (script : Script) : Method :=
  ⟨name, params, returns, isStatic, fun v args => do
    if !isStatic then
      let _ ← Act.ofWorld (v.ownEntries owner)
    script.run v args⟩

end Stencil
