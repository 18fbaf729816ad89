import Stencil.Text.CasingData
import Stencil.Text.Property
set_option autoImplicit false

namespace Stencil.Text

/-- Code points `first, first + stride, …`, each mapped at the same distance. -/
structure CaseRun where
  first : Nat
  count : Nat
  stride : Nat
  distance : Int
deriving Repr, Inhabited

namespace CaseRun

def covers (r : CaseRun) (n : Nat) : Bool :=
  r.first ≤ n && (n - r.first) % r.stride == 0 && (n - r.first) / r.stride < r.count

def image (r : CaseRun) (n : Nat) : Nat := ((n : Int) + r.distance).toNat

def ofNumbers : List Int → List CaseRun
  | a :: n :: s :: d :: rest => ⟨a.toNat, n.toNat, s.toNat, d⟩ :: ofNumbers rest
  | _ => []

def read (data : String) : List CaseRun := ofNumbers (numbers36 data)

def pairs (r : CaseRun) : List (Nat × Nat) :=
  (List.range r.count).map fun i => let n := r.first + i * r.stride; (n, r.image n)

end CaseRun

def upperRuns : List CaseRun := CaseRun.read upperRunData
def lowerRuns : List CaseRun := CaseRun.read lowerRunData

/-- The character that a list of runs maps `c` to; itself when no run covers it. -/
def mapByRuns (runs : List CaseRun) (c : Char) : Char :=
  match runs.find? (·.covers c.toNat) with
  | some r => Char.ofNat (r.image c.toNat)
  | none => c

def upperChar (c : Char) : List Char :=
  match upperLongData.find? (·.1 == c.toNat) with
  | some (_, ns) => ns.map Char.ofNat
  | none => [mapByRuns upperRuns c]

def lowerChar (c : Char) : List Char :=
  match lowerLongData.find? (·.1 == c.toNat) with
  | some (_, ns) => ns.map Char.ofNat
  | none => [mapByRuns lowerRuns c]

def upper (cs : List Char) : List Char := cs.flatMap upperChar

/-- Whether the next character that has or lacks case, past the ignorable ones, has case. -/
def casedNext (cs : List Char) : Bool :=
  match cs.dropWhile caseIgnorable.has with
  | c :: _ => cased.has c
  | [] => false

/-- Lower-case form of a text whose characters before it are `seen`, nearest first. A capital sigma that
ends a word becomes a final sigma. -/
def lowerFrom (seen : List Char) : List Char → List Char
  | [] => []
  | c :: cs =>
    let form := if c == 'Σ' then
        if casedNext seen && !casedNext cs then ['ς'] else ['σ']
      else lowerChar c
    form ++ lowerFrom (c :: seen) cs

def lower (cs : List Char) : List Char := lowerFrom [] cs

def sameIgnoringCase (a b : String) : Bool := a.toList.map Char.toLower == b.toList.map Char.toLower

end Stencil.Text
