import Stencil.Pattern.Basic
import Stencil.Text.Bytes
/-!
The room a pattern takes as an automaton over UTF-8 bytes, read forward and backward. A pattern that takes
too much room is refused.
-/
set_option autoImplicit false

namespace Stencil

namespace CharSet

abbrev ByteRun : Type := List (Nat × Nat)

/-- The byte runs of the numbers from `a` to `b` that are written with `k` continuation bytes; `lead` is
added to the first digit. -/
def byteRuns : (k lead a b : Nat) → List ByteRun
  | 0, lead, a, b => [[(lead + a, lead + b)]]
  | k + 1, lead, a, b =>
    let m := Nat.pow 64 (k + 1)
    let p := a / m
    let q := b / m
    let under (d : Nat) (a b : Nat) : List ByteRun :=
      (byteRuns k 0x80 a b).map fun r => (lead + d, lead + d) :: r
    if p = q then under p (a % m) (b % m)
    else
      let first := if a % m = 0 then p else p + 1
      let stop := if b % m = m - 1 then q + 1 else q
      (if a % m = 0 then [] else under p (a % m) (m - 1)) ++
      (if first < stop then [(lead + first, lead + stop - 1) :: List.replicate (k + 1) (0x80, 0xbf)] else []) ++
      (if b % m = m - 1 then [] else under q 0 (b % m))

/-- Ranges of code points of one encoded length, with the number of continuation bytes and the mark of
the first byte. -/
def encodedLengths : List (Nat × Nat × Nat × Nat) :=
  [(0, 0x7f, 0, 0), (0x80, 0x7ff, 1, 0xc0), (0x800, 0xd7ff, 2, 0xe0), (0xe000, 0xffff, 2, 0xe0),
    (0x10000, 0x10ffff, 3, 0xf0)]

def runs (s : CharSet) : List ByteRun :=
  s.toList.flatMap fun (a, b) => encodedLengths.flatMap fun (low, high, k, lead) =>
    if max a low ≤ min b high then byteRuns k lead (max a low) (min b high) else []

/-- Groups runs by their first range; what follows it is kept in order. -/
def branches : List ByteRun → List ((Nat × Nat) × List ByteRun)
  | [] => []
  | [] :: rs => branches rs
  | (b :: r) :: rs =>
    match branches rs with
    | (b', ts) :: more => if b = b' then (b, r :: ts) :: more else (b, [r]) :: (b', ts) :: more
    | [] => [(b, [r])]

/-- The different nodes that lead on, from those of one level down to a depth. A node is what can follow. -/
def nodes : Nat → List (List ByteRun) → List (List ByteRun)
  | 0, _ => []
  | n + 1, level =>
    let here := (level.filter fun rs => rs.any fun r => !r.isEmpty).eraseDups
    here ++ nodes n (here.flatMap fun rs => (branches rs).map (·.2))

def beginnings : Nat → List ByteRun → Nat
  | 0, _ => 0
  | n + 1, rs => (branches rs).foldl (fun count b => count + 1 + beginnings n b.2) 0

end CharSet

structure Weight where
  forward : Nat
  backward : Nat
deriving DecidableEq, Repr

namespace Weight

def both (n : Nat) : Weight := ⟨n, n⟩

instance : Add Weight := ⟨fun v w => ⟨v.forward + w.forward, v.backward + w.backward⟩⟩

def scale (n : Nat) (w : Weight) : Weight := ⟨n * w.forward, n * w.backward⟩

/-- A state, and what each of its branches adds to a choice or to a table. -/
def state : Nat := 32
def choice : Nat := 4
def step : Nat := 8

/-- A set of ASCII characters is a table; a single character is a state for each of its bytes. Of other
sets, like ends are shared forward and like beginnings backward. -/
def ofSet (s : CharSet) : Weight :=
  match s.toList with
  | [(a, b)] => if a = b then both (state * (Char.ofNat a).utf8Size) else ofRanges s
  | _ => ofRanges s
where
  ofRanges (s : CharSet) : Weight :=
    if s.isNarrow then both (2 * state + step * s.ranges.size)
    else
      let rs := s.runs
      ⟨(CharSet.nodes 4 [rs]).eraseDups.foldl
          (fun n node => n + state + step * (CharSet.branches node).length) state,
        2 * state + choice * rs.length + state * CharSet.beginnings 4 rs⟩

def bound (s : CharSet) : Weight := both (4000 * (s.ranges.size + 1))

end Weight

namespace Pattern

def weight (ofSet : CharSet → Weight) : Pattern → Weight
  | empty | anchor _ => .both Weight.state
  | one s => ofSet s
  | seq p q => p.weight ofSet + q.weight ofSet
  | alt p (alt q r) => p.weight ofSet + (alt q r).weight ofSet + .both Weight.choice
  | alt p q => p.weight ofSet + q.weight ofSet + .both (2 * Weight.state + 2 * Weight.choice)
  | group p => p.weight ofSet + ⟨2 * Weight.state, 0⟩
  | times p least none =>
    let fork := Weight.state + 2 * Weight.choice
    (p.weight ofSet).scale (max least 1) +
      .both (if least = 0 && p.isNullable then 2 * fork + Weight.state else fork)
  | times p least (some most) =>
    let fork := Weight.state + 2 * Weight.choice
    let ends := if least = 0 && most ≠ 1 then 2 * Weight.state else Weight.state
    (p.weight ofSet).scale most + .both (if least = most then 0 else ends + (most - least) * fork)

def weightLimit : Nat := 10 * Nat.pow 2 20

/-- Room for what comes before a match, for its end, and, forward, for where it starts and stops. -/
def frame : Weight :=
  .both (4 * Weight.state + Weight.step + 2 * Weight.choice) + ⟨2 * Weight.state, 0⟩

def isWithin (w : Weight) : Bool := (w + frame).forward ≤ weightLimit && (w + frame).backward ≤ weightLimit

def isLight (p : Pattern) : Bool := isWithin (p.weight Weight.bound) || isWithin (p.weight Weight.ofSet)

end Pattern

end Stencil
