import Stencil.Json.Parser
import Stencil.Options
import Stencil.Table
/-!
Options from JSON. A document is an object, in which every field may be left out and unknown ones are
passed over, or an array with the fields in their order. What an unknown field holds need not mean
anything.
-/
set_option autoImplicit false

namespace Stencil

namespace Json

def toBool? : Json → Option Bool
  | bool b => some b
  | _ => none

def toNat? : Json → Option Nat
  | int v => if 0 ≤ v then some v.toNat else none
  | _ => none

def toText? : Json → Option String
  | str s => some s
  | _ => none

def toChar? : Json → Option Char
  | str s =>
    match s.toList with
    | [c] => some c
    | _ => none
  | _ => none

def toSeparator? : Json → Option (Option Char)
  | null => some none
  | j => j.toChar?.map some

def toTexts? : Json → Option (List String)
  | arr items => items.mapM toText?
  | _ => none

/-- The fields a document gives, by name. A field must not be given twice. -/
def fields? (names : List String) : Json → Option (Table Json)
  | obj members =>
    let known := members.filter fun m => names.contains m.1
    if (known.map (·.1)).Nodup then some (.ofList known) else none
  | arr items => if items.length ≤ names.length then some (.ofList (names.zip items)) else none
  | _ => none

def field? {α : Type} (t : Table Json) (name : String) (read : Json → Option α) (whenMissing : α) : Option α :=
  match t.get? name with
  | some j => read j
  | none => some whenMissing

end Json

namespace Json.Written

/-- Members of an object with their names; every name must mean something. -/
def named? (ms : List (List Char × Written)) : Option (List (String × List Char × Written)) :=
  ms.mapM fun m => do return (← unescape? [] m.1, m)

def onlyFields? (names : List String) : Written → Option Written
  | obj ms => do return obj (((← named? ms).filter fun m => names.contains m.1).map (·.2))
  | w => some w

/-- Changes a field of a document, which it may give by name or by place. -/
def changeField? (names : List String) (name : String) (f : Written → Option Written) : Written → Option Written
  | obj ms => do
    let changed ← (← named? ms).mapM fun (n, spelling, w) => do
      return (spelling, ← if n = name then f w else some w)
    return obj changed
  | arr ws => do
    let changed ← (ws.zip names).mapM fun (w, n) => if n = name then f w else some w
    return arr (changed ++ ws.drop names.length)
  | w => some w

end Json.Written

def NumberFormat.fieldNames : List String := ["decimal_separator", "group_separator"]

def NumberFormat.ofJson? (j : Json) : Option NumberFormat := do
  let t ← j.fields? fieldNames
  return ⟨← Json.field? t "decimal_separator" Json.toChar? invariant.decimalSeparator,
    ← Json.field? t "group_separator" Json.toSeparator? invariant.groupSeparator⟩

namespace Options

def fieldNames : List String :=
  ["strict", "case_sensitive", "lenient_predicates", "implied_namespaces", "number_format", "max_passes"]

def ofJson? (j : Json) : Option Options := do
  let t ← j.fields? fieldNames
  return ⟨← Json.field? t "strict" Json.toBool? default.strict,
    ← Json.field? t "case_sensitive" Json.toBool? default.caseSensitive,
    ← Json.field? t "lenient_predicates" Json.toBool? default.lenientPredicates,
    ← Json.field? t "implied_namespaces" Json.toTexts? default.impliedNamespaces,
    ← Json.field? t "number_format" NumberFormat.ofJson? default.numberFormat,
    ← Json.field? t "max_passes" Json.toNat? default.maxPasses⟩

def ofText? (s : String) : Option Options := do
  let w ← (← Json.Written.ofText? s).onlyFields? fieldNames
  let w ← w.changeField? fieldNames "number_format" (Json.Written.onlyFields? NumberFormat.fieldNames)
  Json.ofWritten? Json.depthLimit w >>= ofJson?

end Options

end Stencil
