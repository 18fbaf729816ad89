set_option autoImplicit false

namespace Stencil.Text

structure CodeSet where
  ranges : List (Nat × Nat)
deriving Repr, Inhabited

namespace CodeSet

def contains (s : CodeSet) (n : Nat) : Bool := s.ranges.any fun (a, b) => a ≤ n && n ≤ b

def has (s : CodeSet) (c : Char) : Bool := s.contains c.toNat

end CodeSet

def words (s : String) : List String :=
  ((s.map fun c => if c = '\n' then ' ' else c).splitOn " ").filter fun word => !word.isEmpty

def digit36 (c : Char) : Nat := if c.isDigit then c.toNat - '0'.toNat else c.toNat - 'a'.toNat + 10

/-- Reads on after the numbers `p` and `q`, the mark of a number and the capitals of it, which make `n`. -/
def numbersFrom (p q : Int) (mark : Char) (n : Nat) : List Char → List Int
  | [] => []
  | c :: cs =>
    if c = '-' || c = '*' then numbersFrom p q c 0 cs
    else if c.isUpper then numbersFrom p q mark (26 * n + (c.toNat - 'A'.toNat)) cs
    else if c.isAlphanum then
      let m := 36 * n + digit36 c
      if mark = '*' then (List.replicate m [p, q]).flatten ++ numbersFrom p q ' ' 0 cs
      else
        let k : Int := if mark = '-' then -m else m
        k :: numbersFrom q k ' ' 0 cs
    else numbersFrom p q mark n cs

/-- Numbers without blanks between them: each ends in a digit of base 36, and capitals before it count the 36s in base
26. A number after `-` is negative; `*` and a number repeat the two numbers before it that often. -/
def numbers36 (s : String) : List Int := numbersFrom 0 0 ' ' 0 s.toList

def rangesOfGaps : Nat → List Int → List (Nat × Nat)
  | next, gap :: length :: rest =>
    let a := next + gap.toNat
    let b := a + length.toNat
    (a, b) :: rangesOfGaps (b + 1) rest
  | _, _ => []

def CodeSet.read (data : String) : CodeSet := ⟨rangesOfGaps 0 (numbers36 data)⟩

end Stencil.Text
