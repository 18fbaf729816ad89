import Stencil.Pattern.Basic
/-!
Matching. A pattern whose repetitions are written out carries a mark at every character set that took the
character just read; reading on moves all marks at once, so a match is found in one pass over the text.
What is known at the gap reached is kept at every node, and parts without marks that no match enters are
left alone.
-/
set_option autoImplicit false

namespace Stencil

structure Facts where
  ends : Bool
  /-- The empty text matches here. -/
  empty : Bool
  live : Bool
  /-- There are no anchors, so what is known does not depend on the gap. -/
  steady : Bool
deriving DecidableEq, Repr, Inhabited

inductive Marked where
  | empty
  | one (s : CharSet) (mark : Bool)
  | anchor (a : Anchor) (holds : Bool)
  | seq (f : Facts) (p q : Marked)
  | alt (f : Facts) (p q : Marked)
  | star (f : Facts) (p : Marked)
deriving Repr, Inhabited

namespace Marked

def facts : Marked → Facts
  | empty => ⟨false, true, false, true⟩
  | one _ mark => ⟨mark, false, mark, true⟩
  | anchor _ holds => ⟨false, holds, false, false⟩
  | seq f _ _ | alt f _ _ | star f _ => f

def andThen (p q : Marked) : Marked :=
  let x := p.facts
  let y := q.facts
  seq ⟨y.ends || (x.ends && y.empty), x.empty && y.empty, x.live || y.live, x.steady && y.steady⟩ p q

def orElse (p q : Marked) : Marked :=
  let x := p.facts
  let y := q.facts
  alt ⟨x.ends || y.ends, x.empty || y.empty, x.live || y.live, x.steady && y.steady⟩ p q

def starred : Marked → Marked
  | star f p => star f p
  | p => star { p.facts with empty := true } p

def copies (p : Marked) (n : Nat) : Marked :=
  match n with
  | 0 => empty
  | 1 => p
  | n + 2 => (p.copies ((n + 2) / 2)).andThen (p.copies (n + 2 - (n + 2) / 2))
termination_by n
decreasing_by all_goals omega

/-- The unmarked form of a pattern at the first gap of a text of `length` characters. Among more rounds
than that some are empty, and then their number makes no difference. -/
def ofPattern (length : Nat) (g : Gap) : Pattern → Marked
  | .empty => empty
  | .one s => one s false
  | .anchor a => anchor a (a.holds g)
  | .seq p q => (ofPattern length g p).andThen (ofPattern length g q)
  | .alt p q => (ofPattern length g p).orElse (ofPattern length g q)
  | .group p => ofPattern length g p
  | .times p least most =>
    let p := ofPattern length g p
    (p.copies (min least (length + 1))).andThen
      (match most with
      | none => p.starred
      | some m => (p.orElse empty).copies (min (m - least) length))

/-- Moves the marks over the character `c` to the gap `g` after it; with `enter` a match may start before
that character. -/
def move (g : Gap) (c : Char) (enter : Bool) (p : Marked) : Marked :=
  if !enter && !p.facts.live && p.facts.steady then p
  else match p with
    | empty => empty
    | one s _ => one s (enter && s.has c)
    | anchor a _ => anchor a (a.holds g)
    | seq _ p q =>
      (p.move g c enter).andThen (q.move g c (p.facts.ends || (enter && p.facts.empty)))
    | alt _ p q => (p.move g c enter).orElse (q.move g c enter)
    | star _ p => (p.move g c (enter || p.facts.ends)).starred

/-- Whether a match ends in the rest of a text; one may start at each gap. -/
def finds (p : Marked) : List Char → Bool
  | [] => p.facts.ends || p.facts.empty
  | c :: cs => p.facts.ends || p.facts.empty || (p.move ⟨some c, cs.head?⟩ c true).finds cs

end Marked

def Pattern.isMatch (p : Pattern) (text : String) : Bool :=
  let cs := text.toList
  (Marked.ofPattern cs.length ⟨none, cs.head?⟩ p).finds cs

end Stencil
