import Stencil.Host.Basic
import Stencil.Operator.Symbol
set_option autoImplicit false

namespace Stencil

mutual

inductive Code where
  | const (v : Value)
  | context (n : Nat)
  | slot (n : Nat)
  /-- A variable of the context in a frame, converted to its declared kind. -/
  | variable (frame : Nat) (name : String) (kind : Kind) (caseSensitive : Bool)
  /-- A member settled on the value; when there is none, a strict one fails and another is empty. -/
  | lateMember (target : Code) (name : String) (caseSensitive strict : Bool)
  | field (target : Code) (f : Field)
  | property (target : Code) (name : String) (caseSensitive : Bool)
  | index (target position : Code)
  | unary (op : UnaryOp) (operand : Code)
  | binary (op : BinaryOp) (left right : Code)
  | both (left right : Code)
  | either (left right : Code)
  /-- The left value, or the right one where it is null, converted to a kind. -/
  | coalesce (left right : Code) (kind : Kind)
  | choice (test yes no : Code)
  | toBool (c : Code)
  | toText (c : Code)
  | convert (c : Code) (kind : Kind)
  /-- A call settled on the value; when nothing answers, a strict one fails and another is empty. -/
  | lateCall (target : Code) (name : String) (args : List Code) (caseSensitive strict : Bool)
  | method (target : Code) (m : Method) (args : List Code)
  | callValue (callee : Code) (name : String) (args : List Code)
  /-- A call of a fragment: its arguments fill the parameter slots, and its parts run on the contexts
  kept in its snapshot slot. -/
  | fragment (name : String) (params : List Nat) (snapshot : Nat) (compute emit : List Step)
      (args : List Code)
  /-- The text of steps, after running others whose text is dropped. -/
  | rendered (compute emit : List Step)

inductive Step where
  | text (s : String)
  | emit (c : Code)
  | choose (test : Code) (yes no : List Step)
  /-- Runs a body once per element, with the element as context; without elements, the fallback. -/
  | each (source : Code) (body fallback : List Step)
  | block (context : Code) (body : List Step)
  /-- Evaluates values, fills slots with them, and runs a body in the same context. -/
  | bind (slots : List Nat) (values : List Code) (body : List Step)
  | setSlot (slot : Nat) (c : Code)
  | setVariable (frame : Nat) (name : String) (c : Code)
  | unsetVariable (frame : Nat) (name : String)
  /-- Keeps the contexts in a slot. -/
  | snapshot (slot : Nat)
  | assert (test message : Code)
  | raise (message : String)
  | raiseText (body : List Step)
  | passCap (passes : Nat)
  | pragma (text : String)
  | transform (f : String → String) (body : List Step)

end

instance : Inhabited Code := ⟨.const .null⟩

instance : Inhabited Step := ⟨.text ""⟩

abbrev Body : Type := List Step

def Body.ofSteps (steps : List Step) : Body :=
  steps.filter fun s => match s with
    | .text t => !t.isEmpty
    | _ => true

structure Fragment where
  name : String
  params : List Nat
  /-- Slot of the contexts in which it was defined. -/
  snapshot : Nat
  compute : Body
  emit : Body

structure Typed where
  code : Code
  kind : Kind

instance : Inhabited Typed := ⟨⟨default, .null⟩⟩

namespace Typed

def const (w : World) (v : Value) : Typed := ⟨.const v, v.kind w⟩

/-- The empty text, which stands for an unresolved name where that is allowed. -/
def empty : Typed := ⟨.const (.text ""), .text⟩

end Typed

end Stencil
