import Stencil.Decimal.Notation
import Stencil.Json.Basic
/-!
Documents as text, without layout. Control characters, quotes and backslashes are escaped; all else stands
for itself.
-/
set_option autoImplicit false

namespace Stencil.Json

def hexDigits (width n : Nat) : List Char :=
  let ds := Nat.toDigits 16 n
  List.replicate (width - ds.length) '0' ++ ds

def escaped (c : Char) : List Char :=
  if c = '"' || c = '\\' then ['\\', c]
  else if c.toNat < 32 then '\\' :: 'u' :: hexDigits 4 c.toNat
  else [c]

def displayText (s : String) : String := "\"" ++ String.ofList (s.toList.flatMap escaped) ++ "\""

mutual

/-- Text of a document. A number that is not finite has none, so null stands for it. -/
def display : Json → String
  | null => "null"
  | bool b => if b then "true" else "false"
  | int v => toString v
  | float x => if x.isNaN || x.isInf then "null" else Decimal.diagnosticText x
  | str s => displayText s
  | arr js => "[" ++ ",".intercalate (displayAll js) ++ "]"
  | obj ms => "\x7b" ++ ",".intercalate (displayMembers ms) ++ "\x7d"

def displayAll : List Json → List String
  | [] => []
  | j :: js => display j :: displayAll js

def displayMembers : List (String × Json) → List String
  | [] => []
  | (name, j) :: ms => (displayText name ++ ":" ++ display j) :: displayMembers ms

end

end Stencil.Json
