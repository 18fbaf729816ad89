import Stencil.Host.Script
/-!
Hosts put together piece by piece: types are declared, objects and functions added, and each is known by
its reference from then on.
-/
set_option autoImplicit false

namespace Stencil

structure Assembly where
  world : World
  types : Array HostType
  functions : Array (List Value → Act Value)
  declared : Table NamedType
  registry : Table NamedType
  shared : Table Value

abbrev Assemble : Type → Type := StateM Assembly

namespace Assembly

def empty : Assembly := ⟨.empty, #[], #[], .empty, .empty, .empty⟩

instance : Inhabited Assembly := ⟨empty⟩

def host (a : Assembly) : Host := ⟨a.types, a.functions, none⟩

def hostType? (a : Assembly) (name : String) : Option HostType :=
  match a.declared.get? name with
  | some (.host id _) => some (a.host.type id)
  | _ => none

def enumType? (a : Assembly) (name : String) : Option EnumType :=
  match a.declared.get? name with
  | some (.enum t) => some t
  | _ => none

def objectClass (a : Assembly) (name : String) : ObjectClass :=
  match a.declared.get? name with
  | some (.host id n) => .declared id n
  | _ => .declared a.types.size ⟨none, name⟩

end Assembly

namespace Assemble

def addObject (o : Object) : Assemble Value := do
  let a ← get
  let (w, ref) := a.world.add o
  set { a with world := w }
  return .object ref

def addFunction (f : List Value → Act Value) : Assemble Value := do
  let a ← get
  set { a with functions := a.functions.push f }
  return .function a.functions.size

def addTally : Assemble Nat := do
  let a ← get
  set { a with world := { a.world with tallies := a.world.tallies.push 0 } }
  return a.world.tallies.size

def kindOf (v : Value) : Assemble Kind := do return v.kind (← get).world

def addType (t : HostType) : Assemble NamedType := do
  let a ← get
  set { a with types := a.types.push t }
  return .host a.types.size t.name

/-- Declares a type; only one that is registered can be named in expressions. -/
def declare (t : NamedType) (registered : Bool) : Assemble Unit := modify fun a =>
  { a with
    declared := a.declared.set t.full t
    registry := if registered then a.registry.set t.full t else a.registry }

def share (name : String) (v : Value) : Assemble Unit := modify fun a => { a with shared := a.shared.set name v }

def onWorld {α : Type} (f : World → α × World) : Assemble α := do
  let a ← get
  let (r, w) := f a.world
  set { a with world := w }
  return r

end Assemble

end Stencil
