import Stencil.Text.Casing
import Stencil.Pattern.Table.Fold
/-!
Sets of characters, kept as closed ranges of code points in order, no two of which touch. A set so kept
has one form, and membership is found by halving.
-/
set_option autoImplicit false

namespace Stencil

structure CharSet where
  ranges : Array (Nat × Nat)
deriving DecidableEq, Repr, Inhabited

namespace CharSet

def joined : List (Nat × Nat) → List (Nat × Nat)
  | [] => []
  | r :: rs => go r rs
where
  go (r : Nat × Nat) : List (Nat × Nat) → List (Nat × Nat)
    | [] => [r]
    | s :: rs => if s.1 ≤ r.2 + 1 then go (r.1, max r.2 s.2) rs else r :: go s rs

def ofRanges (rs : List (Nat × Nat)) : CharSet :=
  ⟨(joined (rs.mergeSort fun r s => r.1 ≤ s.1)).toArray⟩

def none : CharSet := ⟨#[]⟩

def range (a b : Char) : CharSet := ⟨#[(a.toNat, b.toNat)]⟩

def single (c : Char) : CharSet := range c c

def ofPairs (ps : List (Char × Char)) : CharSet := ofRanges (ps.map fun p => (p.1.toNat, p.2.toNat))

def read (data : String) : CharSet := ⟨(Text.CodeSet.read data).ranges.toArray⟩

def toList (s : CharSet) : List (Nat × Nat) := s.ranges.toList

/-- Whether `n` is in one of the ranges from place `low` up to place `high`. -/
def contains (s : CharSet) (n low high : Nat) : Bool :=
  if low < high then
    let mid := (low + high) / 2
    match s.ranges[mid]? with
    | some (a, b) =>
      if n < a then s.contains n low mid
      else if b < n then s.contains n (mid + 1) high
      else true
    | Option.none => false
  else false
termination_by high - low

def hasCode (s : CharSet) (n : Nat) : Bool := s.contains n 0 s.ranges.size

def has (s : CharSet) (c : Char) : Bool := s.hasCode c.toNat

def lastCode : Nat := 0x10ffff

def full : CharSet := ⟨#[(0, lastCode)]⟩

def gaps : Nat → List (Nat × Nat) → List (Nat × Nat)
  | next, [] => if next ≤ lastCode then [(next, lastCode)] else []
  | next, (a, b) :: rs => if next < a then (next, a - 1) :: gaps (b + 1) rs else gaps (b + 1) rs

def compl (s : CharSet) : CharSet := ⟨(gaps 0 s.toList).toArray⟩

def union (s t : CharSet) : CharSet := ofRanges (s.toList ++ t.toList)

def unions (ss : List CharSet) : CharSet := ofRanges (ss.flatMap toList)

def inter (s t : CharSet) : CharSet := (s.compl.union t.compl).compl

def diff (s t : CharSet) : CharSet := (s.compl.union t).compl

def symmDiff (s t : CharSet) : CharSet := (s.diff t).union (t.diff s)

def isNarrow (s : CharSet) : Bool := s.ranges.all fun r => r.2 < 128

/-- Code points with the representative of those that differ from them only in case. -/
def folds : List (Nat × Nat) := (Text.CaseRun.read Pattern.Table.folding).flatMap Text.CaseRun.pairs

/-- Adds what differs from a member only in case; without `wide` only the case of ASCII letters counts. -/
def folded (wide : Bool) (s : CharSet) : CharSet :=
  let pairs := if wide then folds else folds.filter fun p => p.1 < 128
  let up := s.union (ofRanges (pairs.filterMap fun (c, f) => if s.hasCode c then some (f, f) else Option.none))
  up.union (ofRanges (pairs.filterMap fun (c, f) => if up.hasCode f then some (c, c) else Option.none))

end CharSet

end Stencil
