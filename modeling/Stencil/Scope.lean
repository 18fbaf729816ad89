import Stencil.Code
import Stencil.Host.Builtin
/-!
Names in force while a template is compiled. Each nested region has a frame with the kind of its context
and the names it binds; a name is looked up from the innermost frame out.
-/
set_option autoImplicit false

namespace Stencil

inductive BinderKind where
  /-- Holds no definitions. -/
  | readOnly
  /-- Holds definitions and passes them on to the context's variables. -/
  | dynamic
  | declarations
  | lets
  | parameters
deriving DecidableEq, Repr, Inhabited

namespace BinderKind

def all : List BinderKind := [readOnly, dynamic, declarations, lets, parameters]

def title : BinderKind → String
  | readOnly => "ReadOnly" | dynamic => "Dynamic" | declarations => "Declarations" | lets => "Let"
  | parameters => "Parameters"

def ofTitle? (title : String) : Option BinderKind := all.find? fun k => k.title == title

end BinderKind

inductive Origin where
  | letBinding | definition | parameter
deriving DecidableEq, Repr, Inhabited

namespace Origin

def all : List Origin := [letBinding, definition, parameter]

def title : Origin → String
  | letBinding => "Let" | definition => "Define" | parameter => "Parameter"

def ofTitle? (title : String) : Option Origin := all.find? fun o => o.title == title

end Origin

inductive Binding where
  | slot (slot : Nat) (kind : Kind) (origin : Origin)
  | variable (frame : Nat) (name : String) (kind : Kind)
  | fragment (f : Fragment)
  /-- The name counts as not bound from here on. -/
  | hidden

namespace Binding

instance : Inhabited Binding := ⟨hidden⟩

def isLet : Binding → Bool
  | slot _ _ .letBinding => true
  | _ => false

def isHidden : Binding → Bool
  | hidden => true
  | _ => false

end Binding

/-- A nested region. Names it does not bind are looked up in the frame around it, which is the next one in
the list of frames. -/
structure Frame where
  context : Kind
  binder : BinderKind
  bindings : Table Binding

instance : Inhabited Frame := ⟨⟨.any, .declarations, .empty⟩⟩

namespace Frame

def open_ (context : Kind) (binder : BinderKind) : Frame := ⟨context, binder, .empty⟩

def find? (f : Frame) (caseSensitive : Bool) (name : String) : Option Binding :=
  f.bindings.lookup caseSensitive name

def takesDefinitions (f : Frame) : Bool :=
  match f.binder with
  | .declarations | .dynamic => true
  | _ => false

end Frame

/-- Frames from the innermost out, the outermost apart, and the number of slots given out. Frames are
counted from the outermost, which is frame 0. -/
structure Scope where
  inner : List Frame
  root : Frame
  slots : Nat

namespace Scope

instance : Inhabited Scope := ⟨⟨[], default, 0⟩⟩

/-- The scope of a whole template. Its definitions become variables of the context where it has them. -/
def init (h : Host) (w : World) (context : Kind) : Scope :=
  ⟨[], .open_ context (if h.isDynamic w context then .dynamic else .declarations), 0⟩

def frames (s : Scope) : List Frame := s.inner ++ [s.root]

def depth (s : Scope) : Nat := s.inner.length + 1

def current (s : Scope) : Frame := s.inner.headD s.root

def currentIndex (s : Scope) : Nat := s.inner.length

def push (s : Scope) (context : Kind) (binder : BinderKind) : Scope :=
  { s with inner := .open_ context binder :: s.inner }

/-- Leaves the innermost frame; the outermost one stays. -/
def pop (s : Scope) : Scope := { s with inner := s.inner.drop 1 }

def frame? (s : Scope) (i : Nat) : Option Frame := s.frames.reverse[i]?

def context? (s : Scope) (n : Nat) : Option Kind := (s.frames[n]?).map (·.context)

def allocate (s : Scope) : Nat × Scope := (s.slots, { s with slots := s.slots + 1 })

def meaning? (h : Host) (w : World) (caseSensitive : Bool) (name : String) (index : Nat) (f : Frame) :
    Option Binding :=
  match f.find? caseSensitive name with
  | some b => some b
  | none =>
    if f.binder = .dynamic then
      (h.variableKind? w caseSensitive name f.context).map fun k => .variable index name k
    else none

def lookupIn (h : Host) (w : World) (caseSensitive : Bool) (name : String) :
    List Frame → Option (Nat × Binding)
  | [] => none
  | f :: outer =>
    match meaning? h w caseSensitive name outer.length f with
    | some b => some (outer.length, b)
    | none => lookupIn h w caseSensitive name outer

def lookup (s : Scope) (h : Host) (w : World) (caseSensitive : Bool) (name : String) :
    Option (Nat × Binding) :=
  lookupIn h w caseSensitive name s.frames

def findFrame? (p : Frame → Bool) : List Frame → Option Nat
  | [] => none
  | f :: outer => if p f then some outer.length else findFrame? p outer

def letOwner? (s : Scope) (caseSensitive : Bool) (name : String) : Option Nat :=
  findFrame? (fun f => (f.find? caseSensitive name).any Binding.isLet) s.frames

def declarationFrame (s : Scope) : Nat := (findFrame? Frame.takesDefinitions s.frames).getD 0

def binder? (s : Scope) (i : Nat) : Option BinderKind := (s.frame? i).map (·.binder)

/-- Changes the frame with a number in frames given from the innermost out, the outermost apart. -/
def modifyInner (i : Nat) (g : Frame → Frame) : List Frame → List Frame
  | [] => []
  | f :: outer => if outer.length + 1 = i then g f :: outer else f :: modifyInner i g outer

def modifyFrame (s : Scope) (i : Nat) (g : Frame → Frame) : Scope :=
  if i = 0 then { s with root := g s.root } else { s with inner := modifyInner i g s.inner }

def declare (s : Scope) (i : Nat) (name : String) (b : Binding) : Scope :=
  s.modifyFrame i fun f => { f with bindings := f.bindings.set name b }

def boundAs? (s : Scope) (i : Nat) (caseSensitive : Bool) (name : String) : Option (String × Binding) := do
  (← s.frame? i).bindings.entry? caseSensitive name

def remove (s : Scope) (i : Nat) (caseSensitive : Bool) (name : String) : Scope :=
  match s.boundAs? i caseSensitive name with
  | some (key, _) => s.modifyFrame i fun f => { f with bindings := f.bindings.erase key }
  | none => s

def declares (s : Scope) (i : Nat) (caseSensitive : Bool) (name : String) : Bool :=
  (s.boundAs? i caseSensitive name).isSome

end Scope

end Stencil
