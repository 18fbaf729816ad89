import Stencil.Fault.Diagnostic
/-!
Directives by name. A name or a control word means one thing only: it belongs to one directive, except
for the words that directives share.
-/
set_option autoImplicit false

namespace Stencil

inductive BodyRule where
  | none
  /-- Template text up to the terminator, with control words between its sections. -/
  | nested
  | verbatim
deriving DecidableEq, Repr, Inhabited

structure Directive (α : Type) where
  name : String
  words : List String
  body : String → BodyRule
  action : α

def sharedWords : List String := ["else"]

structure Registry (α : Type) where
  directives : Table (Directive α)
  /-- Control words that are not shared, with the directives that own them. -/
  words : Table String

namespace Registry

variable {α : Type}

def empty : Registry α := ⟨.empty, .empty⟩

def get? (r : Registry α) (name : String) : Option (Directive α) := r.directives.get? name

def contains (r : Registry α) (name : String) : Bool := (r.get? name).isSome

def names (r : Registry α) : List String := r.directives.names

def isControlWord (r : Registry α) (word : String) : Bool :=
  sharedWords.contains word || (r.words.get? word).isSome

def insert (r : Registry α) (d : Directive α) : Registry α :=
  ⟨r.directives.set d.name d,
    (d.words.filter fun w => !sharedWords.contains w).foldl (fun ws w => ws.set w d.name) r.words⟩

def nameFault? (r : Registry α) (name : String) : Option Fault :=
  if name.isEmpty || name.toList.any Text.isBlank then some (.invalidDirectiveName name)
  else if r.contains name then some (.alreadyRegistered name)
  else if sharedWords.contains name then some (.reservedWord name)
  else (r.words.get? name).map fun owner => .nameIsWord name owner

def wordFault? (r : Registry α) (name word : String) : Option Fault :=
  if sharedWords.contains word then none
  else if word = name || r.contains word then some (.wordIsName word name)
  else (r.words.get? word).map fun owner => .wordTaken word name owner

def fault? (r : Registry α) (d : Directive α) : Option Fault :=
  r.nameFault? d.name <|> d.words.findSome? (r.wordFault? d.name)

/-- Adds a directive unless that would make a name or a word ambiguous. -/
def register (r : Registry α) (d : Directive α) : Except Diagnostic (Registry α) :=
  match r.fault? d with
  | some f => .error (.of f ⟨0, 0⟩)
  | none => .ok (r.insert d)

end Registry

end Stencil
