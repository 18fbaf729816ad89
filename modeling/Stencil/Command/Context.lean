import Stencil.Json.Basic
import Stencil.World
set_option autoImplicit false

namespace Stencil.Json

/-- Members by name, in order; of several with one name the last counts. -/
def sorted {α : Type} (members : List (String × α)) : List (String × α) :=
  (Table.ofList members).entries.mergeSort fun a b => a.1 ≤ b.1

/-- The value of an integer, in the first of three kinds that holds it. -/
def intValue (v : Int) : Value :=
  if IntKind.i32.contains v then .int v .i32
  else if IntKind.i64.contains v then .int v .i64
  else .int v .u64

mutual

def toValue (w : World) : Json → Value × World
  | null => (.null, w)
  | bool b => (.bool b, w)
  | int v => (intValue v, w)
  | float x => (.float x .f64, w)
  | str s => (.text s, w)
  | arr items =>
    let (vs, w) := toValues w items
    (.list vs, w)
  | obj members =>
    let (es, w) := toEntries w members
    let (w, ref) := w.add (.record ⟨sorted es⟩)
    (.object ref, w)

def toValues (w : World) : List Json → List Value × World
  | [] => ([], w)
  | j :: js =>
    let (v, w) := toValue w j
    let (vs, w) := toValues w js
    (v :: vs, w)

def toEntries (w : World) : List (String × Json) → List (String × Value) × World
  | [] => ([], w)
  | (name, j) :: ms =>
    let (v, w) := toValue w j
    let (es, w) := toEntries w ms
    ((name, v) :: es, w)

end

end Stencil.Json
