import Stencil.Failure
/-!
What a host program brings along: its types with their fields, static members and methods, its functions,
and its listener for pragmas.
-/
set_option autoImplicit false

namespace Stencil

structure Field where
  name : String
  kind : Kind
  read : World → Value → Except Failure Value

structure StaticMember where
  name : String
  kind : Kind
  value : Value

structure Method where
  name : String
  params : List Kind
  returns : Kind
  isStatic : Bool
  run : Value → List Value → Act Value

def Method.signature (m : Method) : String :=
  m.name ++ "(" ++ ", ".intercalate (m.params.map Kind.display) ++ ")"

structure HostType where
  name : TypeName
  fields : Table Field
  statics : Table StaticMember
  methods : List Method
  element : Option Kind
  /-- Whether objects of the type have variables beside their fields. -/
  isDynamic : Bool
  /-- Kinds of the variables that are known. -/
  vars : Table Kind

namespace HostType

def named (name : TypeName) : HostType := ⟨name, .empty, .empty, [], none, false, .empty⟩

instance : Inhabited HostType := ⟨named default⟩

def field? (t : HostType) (caseSensitive : Bool) (name : String) : Option Field :=
  t.fields.lookup caseSensitive name

def static? (t : HostType) (caseSensitive : Bool) (name : String) : Option StaticMember :=
  t.statics.lookup caseSensitive name

def variableKind? (t : HostType) (caseSensitive : Bool) (name : String) : Option Kind :=
  t.vars.lookup caseSensitive name

def methodsNamed (t : HostType) (caseSensitive : Bool) (name : String) : List Method :=
  ((t.methods.filter fun m => !m.isStatic) ++ (t.methods.filter fun m => m.isStatic)).filter
    fun m => sameName caseSensitive m.name name

def hasMethod (t : HostType) (caseSensitive : Bool) (name : String) : Bool :=
  !(t.methodsNamed caseSensitive name).isEmpty

/-- The type of a record: its variables are its entries, and one that is null may become anything. -/
def ofRecord (w : World) (entries : Table Value) : HostType :=
  { named ObjectType.recordName with
    isDynamic := true
    vars := entries.map fun v => match v.kind w with
      | .null => .any
      | k => k }

end HostType

inductive NamedType where
  | host (id : Nat) (name : TypeName)
  | enum (t : EnumType)
deriving Repr, Inhabited

def NamedType.full : NamedType → String
  | host _ n => n.full
  | enum t => t.name.full

structure Host where
  types : Array HostType
  functions : Array (List Value → Act Value)
  /-- Hears the text of a pragma and says whether rendering stops there. -/
  pragma : Option (String → World → Bool × World)

namespace Host

def empty : Host := ⟨#[], #[], none⟩

instance : Inhabited Host := ⟨empty⟩

def type (h : Host) (id : Nat) : HostType := h.types.getD id (.named default)

def call (h : Host) (ref : Nat) (args : List Value) : Act Value :=
  match h.functions[ref]? with
  | some f => f args
  | none => pure .null

/-- The type behind an object type, a record's being read off its entries. -/
def objectType (h : Host) (w : World) : ObjectType → HostType
  | .declared id _ => h.type id
  | .record ref => .ofRecord w ((w.object ref).entries?.getD .empty)

end Host

end Stencil
