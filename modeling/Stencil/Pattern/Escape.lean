import Stencil.Pattern.Basic
import Stencil.Pattern.Flags
import Stencil.Text.Search
/-!
Items of a pattern that are written with a backslash: characters by their codes, letter classes,
properties and anchors.
-/
set_option autoImplicit false

namespace Stencil.Pattern

inductive Item where
  | char (c : Char)
  | byte (c : Char)
  | set (s : CharSet)
  | anchor (a : Anchor)
  | dot
deriving Repr, Inhabited

def isHex (c : Char) : Bool := c.isDigit || ('a' ≤ c && c ≤ 'f') || ('A' ≤ c && c ≤ 'F')

def hexValue (cs : List Char) : Nat :=
  cs.foldl (fun n c =>
    16 * n + (if c.isDigit then c.toNat - '0'.toNat else c.toLower.toNat - 'a'.toNat + 10)) 0

def scalar? (n : Nat) : Option Char := if n.isValidChar then some (Char.ofNat n) else none

def hexDigits (f : Flags) : Nat → List Char → Option (List Char × List Char)
  | 0, cs => some ([], cs)
  | n + 1, c :: cs =>
    if isHex c then (hexDigits f n (skip f cs)).map fun (ds, rest) => (c :: ds, rest) else none
  | _ + 1, [] => none

def upToBrace (f : Flags) (cs : List Char) : Option (List Char × List Char) :=
  match takeSpaced f (· ≠ '\x7d') (skip f cs) with
  | (ds, _ :: rest) => some (ds, rest)
  | (_, []) => none

def hexItem (f : Flags) (digits : Nat) (cs : List Char) : Option (Item × List Char) :=
  match skip f cs with
  | [] => none
  | c :: rest =>
    if c = '\x7b' then do
      let (ds, rest) ← upToBrace f rest
      if ds.isEmpty || !ds.all isHex then none
      else return (.char (← scalar? (hexValue ds)), skip f rest)
    else do
      let (ds, rest) ← hexDigits f digits (c :: rest)
      let c ← scalar? (hexValue ds)
      return (if digits = 2 then .byte c else .char c, rest)

def splitName (separator : List Char) (name : List Char) : Option (String × String) :=
  (Text.cut? separator name).map fun (a, b) => (String.ofList a, String.ofList b)

/-- The set that the text between the braces of a property asks for, and whether it is negated there. -/
def property? (name : List Char) : Option (CharSet × Bool) :=
  match splitName ['!', '='] name with
  | some (p, v) => (CharSet.valued? p v).map fun s => (s, true)
  | none =>
    match splitName [':'] name <|> splitName ['='] name with
    | some (p, v) => (CharSet.valued? p v).map fun s => (s, false)
    | none => (CharSet.named? (String.ofList name)).map fun s => (s, false)

def propertyItem (f : Flags) (negated : Bool) (cs : List Char) : Option (Item × List Char) :=
  match skip f cs with
  | [] => none
  | c :: rest =>
    if !f.wide || c = '\\' then none
    else do
      let (name, rest) ← if c = '\x7b' then upToBrace f rest else some ([c], skip f rest)
      let (s, inside) ← property? name
      return (.set (← f.finishSet? (negated != inside) s), rest)

/-- The set of a letter class; a capital letter asks for the complement. -/
def letterClass? (f : Flags) (c : Char) : Option CharSet :=
  match c.toLower with
  | 'd' => some (if f.wide then CharSet.digits else CharSet.narrowDigits)
  | 's' => some (if f.wide then CharSet.blanks else CharSet.narrowBlanks)
  | 'w' => some (if f.wide then CharSet.wordChars else CharSet.narrowWordChars)
  | _ => none

def namedEdge? (wide : Bool) : String → Option Anchor
  | "start" => some (.wordStart wide)
  | "end" => some (.wordEnd wide)
  | "start-half" => some (.wordStartHalf wide)
  | "end-half" => some (.wordEndHalf wide)
  | _ => none

/-- Reads what follows `\b`: a named edge in braces, or nothing of it when the braces hold no name. -/
def wordEdge (f : Flags) (cs : List Char) : Option (Item × List Char) :=
  let plain : Option (Item × List Char) := some (.anchor (.wordEdge f.wide), cs)
  let isNameChar (c : Char) : Bool := c.isAlpha || c = '-'
  match cs with
  | [] => plain
  | c :: rest =>
    if c = '\x7b' then
      match takeSpaced f isNameChar (skip f rest) with
      | ([], []) => none
      | ([], _ :: _) => plain
      | (name, d :: rest) =>
        if d = '\x7d' then (namedEdge? f.wide (String.ofList name)).map fun a => (.anchor a, rest) else none
      | (_, []) => none
    else plain

def escape (f : Flags) : List Char → Option (Item × List Char)
  | [] => none
  | c :: cs =>
    match c with
    | 'x' => hexItem f 2 cs
    | 'u' => hexItem f 4 cs
    | 'U' => hexItem f 8 cs
    | 'p' => propertyItem f false cs
    | 'P' => propertyItem f true cs
    | 'a' => some (.char '\x07', cs)
    | 'f' => some (.char '\x0c', cs)
    | 't' => some (.char '\t', cs)
    | 'n' => some (.char '\n', cs)
    | 'r' => some (.char '\r', cs)
    | 'v' => some (.char '\x0b', cs)
    | 'A' => some (.anchor .textStart, cs)
    | 'z' => some (.anchor .textEnd, cs)
    | 'b' => wordEdge f cs
    | 'B' => some (.anchor (.wordInside f.wide), cs)
    | '<' => some (.anchor (.wordStart f.wide), cs)
    | '>' => some (.anchor (.wordEnd f.wide), cs)
    | _ =>
      match letterClass? f c with
      | some s => (f.usable? (if c.isUpper then s.compl else s)).map fun s => (.set s, cs)
      | none => if c.toNat < 128 && !c.isAlphanum then some (.char c, cs) else none

end Stencil.Pattern
