import Stencil.Pattern.Class
import Stencil.Pattern.Weight
/-!
Reading patterns: groups, flags, alternatives and repetitions around the items and classes. There is no
looking around and there are no back references.
-/
set_option autoImplicit false

namespace Stencil.Pattern

structure Part where
  pattern : Option Pattern
  depth : Nat
deriving Repr

/-- An open group: whether it is numbered, the flags outside it, and the branches and parts read so far,
last first. -/
structure Level where
  numbered : Bool
  outer : Flags
  branches : List (Pattern × Nat)
  parts : List Part
deriving Repr

def sequence (parts : List Part) : Pattern × Nat :=
  let depth := (parts.map (·.depth)).foldl max 0
  ((parts.filterMap (·.pattern)).foldl (fun acc p => p.andThen acc) .empty,
    if parts.length ≤ 1 then depth else depth + 1)

def Level.close (l : Level) : Pattern × Nat :=
  let last := sequence l.parts
  match l.branches with
  | [] => last
  | bs => (bs.foldl (fun acc b => b.1.orElse acc) last.1, (bs.map (·.2)).foldl max last.2 + 1)

def Level.push (l : Level) (p : Pattern) (depth : Nat) : Level :=
  { l with parts := ⟨some p, depth⟩ :: l.parts }

def itemPattern? (f : Flags) : Item → Option Pattern
  | .char c => some (.one (f.foldSet (.single c)))
  | .byte c => if f.wide || c.toNat < 128 then some (.one (f.foldSet (.single c))) else none
  | .set s => some (.one s)
  | .anchor a => some (.anchor a)
  | .dot =>
    if !f.wide then none
    else if f.dotAll then some (.one .full)
    else if f.pairs then some (.one (CharSet.compl ⟨#[(0xa, 0xa), (0xd, 0xd)]⟩))
    else some (.one (CharSet.single '\n').compl)

def number (f : Flags) (cs : List Char) : Option Nat × List Char :=
  let (digits, rest) := takeSpaced f Char.isDigit (cs.dropWhile Text.isBlank)
  let value := digits.foldl (fun n c => 10 * n + (c.toNat - '0'.toNat)) 0
  (if digits.isEmpty then none else some value, skip f (rest.dropWhile Text.isBlank))

def countBound : Nat := Nat.pow 2 32

/-- Reads the counts of a repetition, after its opening brace, up to its closing one. -/
def counts (f : Flags) (cs : List Char) : Option (Nat × Option Nat × List Char) := do
  let (first, rest) := number f (skip f cs)
  let least ← first
  match rest with
  | ',' :: rest =>
    match skip f rest with
    | [] => none
    | c :: rest =>
      if c = '\x7d' then (if least < countBound then return (least, none, rest) else none)
      else
        let (second, rest) := number f (c :: rest)
        let most ← second
        match rest with
        | c :: rest =>
          if c = '\x7d' && least ≤ most && most < countBound then return (least, some most, rest) else none
        | [] => none
  | c :: rest => if c = '\x7d' && least < countBound then return (least, some least, rest) else none
  | [] => none

/-- Repeats the last part of a sequence; there must be one, and it must not be a change of flags. -/
def Level.repeatLast (l : Level) (least : Nat) (most : Option Nat) : Option Level :=
  match l.parts with
  | ⟨some p, depth⟩ :: parts => some { l with parts := ⟨some (p.repeated least most), depth + 1⟩ :: parts }
  | _ => none

def dropMark : List Char → List Char
  | '?' :: cs => cs
  | cs => cs

/-- Reads flags up to a colon or a closing parenthesis, which it leaves. `seen` holds the letters read,
the hyphen among them. -/
def flagList (f : Flags) (seen : List Char) : List Char → Option (Flags × List Char × List Char)
  | [] => none
  | c :: cs =>
    if c = ':' || c = ')' then
      if seen.head? = some '-' then none else some (f, seen, c :: cs)
    else if seen.contains c then none
    else if c = '-' then flagList f (c :: seen) cs
    else do flagList (← f.put? c (!seen.contains '-')) (c :: seen) cs

def isGroupNameChar (first : Bool) (c : Char) : Bool :=
  c = '_' || Text.alphabetic.has c ||
    (!first && (c = '.' || c = '[' || c = ']' || Text.numeric.has c))

def groupName (cs : List Char) : Option (String × List Char) :=
  let name := cs.takeWhile (· ≠ '>')
  match name, cs.dropWhile (· ≠ '>') with
  | c :: more, _ :: rest =>
    if isGroupNameChar true c && more.all (isGroupNameChar false) then some (String.ofList name, rest) else none
  | _, _ => none

/-- State of the reader: the flags in force, the open groups from the innermost out, and the names of
groups. -/
structure Reader where
  flags : Flags
  level : Level
  outer : List Level
  names : List String
deriving Repr

namespace Reader

def opened (r : Reader) (numbered : Bool) (f : Flags) : Reader :=
  { r with flags := f, level := ⟨numbered, r.flags, [], []⟩, outer := r.level :: r.outer }

def openGroup (r : Reader) (cs : List Char) : Option (Reader × List Char) :=
  match skip r.flags cs with
  | '?' :: '=' :: _ | '?' :: '!' :: _ | '?' :: '<' :: '=' :: _ | '?' :: '<' :: '!' :: _ => none
  | '?' :: 'P' :: '<' :: rest | '?' :: '<' :: rest => do
    let (name, rest) ← groupName rest
    if r.names.contains name then none
    else return ({ r.opened true r.flags with names := name :: r.names }, rest)
  | '?' :: rest => do
    let (f, seen, rest) ← flagList r.flags [] rest
    match rest with
    | ')' :: rest =>
      if seen.isEmpty then none
      else return ({ r with flags := f, level := { r.level with parts := ⟨none, 0⟩ :: r.level.parts } }, rest)
    | _ :: rest => return (r.opened false f, rest)
    | [] => none
  | rest => some (r.opened true r.flags, rest)

def closeGroup (r : Reader) : Option Reader :=
  match r.outer with
  | [] => none
  | level :: outer =>
    let (p, depth) := r.level.close
    let p := if r.level.numbered then .group p else p
    some { r with flags := r.level.outer, level := level.push p (depth + 1), outer := outer }

def pushItem (r : Reader) (item : Item) : Option Reader := do
  return { r with level := r.level.push (← itemPattern? r.flags item) 0 }

def step (r : Reader) (c : Char) (cs : List Char) : Option (Reader × List Char) := do
  let repeated (least : Nat) (most : Option Nat) (rest : List Char) : Option (Reader × List Char) := do
    return ({ r with level := ← r.level.repeatLast least most }, dropMark rest)
  match c with
  | '(' => r.openGroup cs
  | ')' => return (← r.closeGroup, cs)
  | '|' =>
    let b := sequence r.level.parts
    return ({ r with level := { r.level with branches := b :: r.level.branches, parts := [] } }, cs)
  | '[' =>
    let (s, rest) ← bracketClass r.flags cs
    return ({ r with level := r.level.push (.one s.set) s.depth }, rest)
  | '?' => repeated 0 (some 1) cs
  | '*' => repeated 0 none cs
  | '+' => repeated 1 none cs
  | '\x7b' =>
    let (least, most, rest) ← counts r.flags cs
    repeated least most (skip r.flags rest)
  | '\\' =>
    let (item, rest) ← escape r.flags cs
    return (← r.pushItem item, rest)
  | '.' => return (← r.pushItem .dot, cs)
  | '^' => return (← r.pushItem (.anchor (if r.flags.multiLine then .lineStart r.flags.pairs else .textStart)), cs)
  | '$' => return (← r.pushItem (.anchor (if r.flags.multiLine then .lineEnd r.flags.pairs else .textEnd)), cs)
  | _ => return (← r.pushItem (.char c), cs)

def run (r : Reader) (cs : List Char) : Option Pattern :=
  match skip r.flags cs with
  | [] =>
    if r.outer.isEmpty then
      let (p, depth) := r.level.close
      if depth ≤ nestLimit && p.isLight then some p else none
    else none
  | c :: rest => do
    let (r, rest) ← r.step c rest
    if rest.length < cs.length then run r rest else none
termination_by cs.length

end Reader

def ofText? (f : Flags) (text : String) : Option Pattern :=
  Reader.run ⟨f, ⟨false, f, [], []⟩, [], []⟩ text.toList

end Stencil.Pattern
