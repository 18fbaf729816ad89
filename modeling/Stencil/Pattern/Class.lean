import Stencil.Pattern.Escape
/-!
Bracketed classes: characters, ranges, named classes and classes inside classes, joined by set operations.
-/
set_option autoImplicit false

namespace Stencil.Pattern

inductive SetOp where
  | inter | diff | symmDiff
deriving DecidableEq, Repr

def SetOp.apply : SetOp → CharSet → CharSet → CharSet
  | inter => CharSet.inter
  | diff => CharSet.diff
  | symmDiff => CharSet.symmDiff

structure Nested where
  set : CharSet
  depth : Nat
deriving Repr

/-- Items that stand side by side in a class, last first, and the depth of the deepest. -/
structure Items where
  sets : List CharSet
  depth : Nat
deriving Repr

namespace Items

def none : Items := ⟨[], 0⟩

def add (i : Items) (n : Nested) : Items := ⟨n.set :: i.sets, max i.depth n.depth⟩

def addSet (i : Items) (s : CharSet) : Items := i.add ⟨s, 0⟩

/-- The union of the items. Two items or more nest one level deeper than the deepest of them. -/
def close (i : Items) : Nested := ⟨.unions i.sets, if i.sets.length ≤ 1 then i.depth else i.depth + 1⟩

end Items

/-- Joins the left operand of a pending set operation with its right one. -/
def joinSet (f : Flags) (pending : Option (SetOp × Nested)) (right : Nested) : Nested :=
  match pending with
  | none => right
  | some (op, left) =>
    ⟨op.apply (f.foldSet left.set) (f.foldSet right.set), max left.depth right.depth + 1⟩

/-- A bracketed class name, after its opening bracket, with its negation. -/
def bracketedName? (cs : List Char) : Option (CharSet × Bool × List Char) :=
  match cs with
  | ':' :: rest => do
    let (negated, rest) := match rest with
      | '^' :: rest => (true, rest)
      | rest => (false, rest)
    let name := rest.takeWhile (· ≠ ':')
    match rest.dropWhile (· ≠ ':') with
    | ':' :: ']' :: rest => return (← CharSet.bracketed? (String.ofList name), negated, rest)
    | _ => none
  | _ => none

/-- A character inside a class. Narrow classes hold ASCII characters only. -/
def classChar? (f : Flags) : Item → Option Char
  | .char c | .byte c => if f.wide || c.toNat < 128 then some c else none
  | _ => none

def classItem (f : Flags) : List Char → Option (Item × List Char)
  | [] => none
  | '\\' :: cs => escape f cs
  | c :: cs => some (.char c, cs)

/-- The first character that is no blank; one number sign is passed over. -/
def firstSolid (sign : Bool) : List Char → Option Char
  | [] => none
  | c :: cs =>
    if Text.isBlank c then firstSolid sign cs
    else if c = '#' && !sign then firstSolid true cs
    else some c

/-- The character that tells whether a hyphen makes a range, looked for after the hyphen. -/
def lookPast (f : Flags) (cs : List Char) : Option Char :=
  if f.verbose then firstSolid false cs <|> cs.head? else cs.head?

def classRange (f : Flags) (cs : List Char) : Option (CharSet × List Char) := do
  let (first, rest) ← classItem f cs
  let rest := skip f rest
  let alone : Option (CharSet × List Char) :=
    match first with
    | .set s => some (s, rest)
    | item => (classChar? f item).map fun c => (.single c, rest)
  match rest with
  | [] => none
  | '-' :: after =>
    if lookPast f after = some ']' || lookPast f after = some '-' then alone
    else do
      let (last, rest) ← classItem f (skip f after)
      let a ← classChar? f first
      let b ← classChar? f last
      if a ≤ b then return (.range a b, rest) else none
  | _ => alone

/-- Reads the front of a class, after its opening bracket: its negation and what stands for itself there,
which is any number of hyphens or else a closing bracket. -/
def classFront (f : Flags) (cs : List Char) : Bool × Items × List Char :=
  let cs := skip f cs
  let (negated, cs) := match cs with
    | '^' :: rest => (true, skip f rest)
    | rest => (false, rest)
  match takeSpaced f (· = '-') cs with
  | ([], ']' :: rest) => (negated, Items.none.addSet (.single ']'), skip f rest)
  | (hyphens, rest) => (negated, hyphens.foldl (fun i c => i.addSet (.single c)) .none, rest)

/-- Reads a class up to its closing bracket; `room` counts the brackets that may still be opened. -/
def classBody (f : Flags) (room : Nat) (items : Items) (pending : Option (SetOp × Nested))
    (cs : List Char) : Option (Nested × List Char) :=
  match skip f cs with
  | [] => none
  | c :: rest =>
    let operation (op : SetOp) (rest : List Char) : Option (Nested × List Char) :=
      if rest.length < cs.length then classBody f room .none (some (op, joinSet f pending items.close)) rest
      else none
    match c, rest with
    | ']', rest => some (joinSet f pending items.close, rest)
    | '&', '&' :: rest => operation .inter rest
    | '-', '-' :: rest => operation .diff rest
    | '~', '~' :: rest => operation .symmDiff rest
    | '[', rest =>
      match bracketedName? rest with
      | some (s, negated, rest) => do
        let s ← f.finishSet? negated s
        if rest.length < cs.length then classBody f room (items.addSet s) pending rest else none
      | none =>
        match room with
        | 0 => none
        | room + 1 =>
          let (negated, front, rest) := classFront f rest
          if rest.length < cs.length then do
            let (inner, rest) ← classBody f room front none rest
            let s ← f.finishSet? negated inner.set
            if rest.length < cs.length then
              classBody f (room + 1) (items.add ⟨s, inner.depth + 1⟩) pending rest
            else none
          else none
    | _, _ => do
      let (s, rest) ← classRange f (c :: rest)
      if rest.length < cs.length then classBody f room (items.addSet s) pending rest else none
termination_by cs.length
decreasing_by all_goals (try omega)

def nestLimit : Nat := 250

def bracketClass (f : Flags) (cs : List Char) : Option (Nested × List Char) := do
  let (negated, front, rest) := classFront f cs
  let (inner, rest) ← classBody f nestLimit front none rest
  return (⟨← f.finishSet? negated inner.set, inner.depth + 1⟩, rest)

end Stencil.Pattern
