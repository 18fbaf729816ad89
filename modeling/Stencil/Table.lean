import Stencil.Text.Casing
set_option autoImplicit false

namespace Stencil

def sameName (caseSensitive : Bool) (a b : String) : Bool :=
  if caseSensitive then a == b else Text.sameIgnoringCase a b

structure Table (α : Type) where
  entries : List (String × α)
deriving Repr

namespace Table

variable {α : Type}

instance : Inhabited (Table α) := ⟨⟨[]⟩⟩

def empty : Table α := ⟨[]⟩

def names (t : Table α) : List String := t.entries.map (·.1)

def size (t : Table α) : Nat := t.entries.length

def isEmpty (t : Table α) : Bool := t.entries.isEmpty

def get? (t : Table α) (name : String) : Option α :=
  (t.entries.find? fun e => e.1 == name).map (·.2)

def setIn (name : String) (value : α) : List (String × α) → List (String × α)
  | [] => [(name, value)]
  | e :: es => if e.1 = name then (name, value) :: es else e :: setIn name value es

def set (t : Table α) (name : String) (value : α) : Table α := ⟨setIn name value t.entries⟩

def erase (t : Table α) (name : String) : Table α := ⟨t.entries.filter fun e => e.1 != name⟩

def ofList (es : List (String × α)) : Table α := es.foldl (fun t e => t.set e.1 e.2) empty

/-- The entry of a name: the exact name, else, when case does not count, the first that differs in
case only. -/
def entry? (t : Table α) (caseSensitive : Bool) (name : String) : Option (String × α) :=
  match t.entries.find? fun e => e.1 == name with
  | some e => some e
  | none => if caseSensitive then none else t.entries.find? fun e => Text.sameIgnoringCase e.1 name

def lookup (t : Table α) (caseSensitive : Bool) (name : String) : Option α :=
  (t.entry? caseSensitive name).map (·.2)

def map {β : Type} (f : α → β) (t : Table α) : Table β := ⟨t.entries.map fun e => (e.1, f e.2)⟩

end Table

end Stencil
