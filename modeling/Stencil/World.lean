import Stencil.Kind.Basic
import Stencil.Numeric.Format
/-!
What can change while a template runs: the objects, what host functions remember, and the number format
in force.
-/
set_option autoImplicit false

namespace Stencil

structure Variables where
  entries : Table Value
  /-- Whether a variable that is set again keeps its place; otherwise it moves to the end. -/
  keepsPlace : Bool
  /-- Whether names that differ in case only can find each other. -/
  foldsCase : Bool
deriving Repr, Inhabited

namespace Variables

def get? (vs : Variables) (caseSensitive : Bool) (name : String) : Option Value :=
  vs.entries.lookup (caseSensitive || !vs.foldsCase) name

def set (vs : Variables) (name : String) (v : Value) : Variables :=
  if vs.keepsPlace then { vs with entries := vs.entries.set name v }
  else { vs with entries := (vs.entries.erase name).set name v }

def unset (vs : Variables) (name : String) : Variables := { vs with entries := vs.entries.erase name }

end Variables

inductive ObjectClass where
  | record
  | declared (id : Nat) (name : TypeName)
deriving DecidableEq, Repr, Inhabited

structure Object where
  type : ObjectClass
  /-- Entries behind the declared fields; an object without them has no readable fields. -/
  members : Option (Table Value)
  /-- What an iteration yields, when the object can be iterated. -/
  items : Option (List Value)
  vars : Option Variables
  text : Option String
deriving Repr, Inhabited

namespace Object

def record (entries : Table Value) : Object :=
  ⟨.record, none, none, some ⟨entries, true, true⟩, none⟩

def typeName (o : Object) : TypeName :=
  match o.type with
  | .record => ObjectType.recordName
  | .declared _ n => n

def entries? (o : Object) : Option (Table Value) :=
  match o.type with
  | .record => o.vars.map (·.entries)
  | .declared _ _ => none

end Object

structure World where
  objects : Array Object
  tallies : Array Nat
  journal : List String
  format : NumberFormat
deriving Repr, Inhabited

namespace World

def empty : World := ⟨#[], #[], [], .invariant⟩

/-- The object of a reference; a reference to nothing stands for an empty record. -/
def object (w : World) (ref : Nat) : Object := w.objects.getD ref (.record .empty)

def update (w : World) (ref : Nat) (f : Object → Object) : World :=
  { w with objects := w.objects.modify ref f }

def add (w : World) (o : Object) : World × Nat := ({ w with objects := w.objects.push o }, w.objects.size)

def setVariable (w : World) (ref : Nat) (name : String) (v : Value) : World :=
  w.update ref fun o => { o with vars := o.vars.map fun vs => vs.set name v }

def unsetVariable (w : World) (ref : Nat) (name : String) : World :=
  w.update ref fun o => { o with vars := o.vars.map fun vs => vs.unset name }

end World

namespace Value

/-- The kind of a value. Lists are lists of anything. -/
def kind (w : World) : Value → Kind
  | null => .null
  | bool _ => .bool
  | int _ k => .int k
  | float _ k => .float k
  | text _ => .text
  | pattern _ => .pattern
  | enum t _ => .enum t
  | list _ => .list .any
  | object ref =>
    match (w.object ref).type with
    | .record => .object (.record ref)
    | .declared id name => .object (.declared id name)
  | function _ => .function

mutual

def textWith (f : NumberFormat) (ofObject : Nat → String) : Value → String
  | null => ""
  | bool b => if b then "true" else "false"
  | int v _ => f.int v
  | float x k => f.float x k
  | text s => s
  | pattern r => r.source
  | enum t v => (t.nameOf? v).getD (f.int v)
  | list items => ", ".intercalate (textsWith f ofObject items)
  | object ref => ofObject ref
  | function _ => "function"

def textsWith (f : NumberFormat) (ofObject : Nat → String) : List Value → List String
  | [] => []
  | v :: vs => textWith f ofObject v :: textsWith f ofObject vs

end

end Value

namespace World

/-- Text of an object, with records nested at most `depth` deep. A record shows its entries. -/
def objectText (w : World) : Nat → Nat → String
  | 0, _ => ""
  | depth + 1, ref =>
    let o := w.object ref
    match o.text with
    | some s => s
    | none =>
      match o.entries? with
      | some es =>
        let shown := es.entries.map fun e => e.1 ++ ": " ++ e.2.textWith w.format (w.objectText depth)
        "\x7b" ++ ", ".intercalate shown ++ "\x7d"
      | none => o.typeName.name

end World

/-- Text of a value. Records nest no deeper than there are records, unless one of them holds itself, which
it may after it was defined as one of its own variables. Its text then breaks off at that depth. -/
def Value.display (w : World) (v : Value) : String :=
  v.textWith w.format (w.objectText (w.objects.size + 1))

end Stencil
