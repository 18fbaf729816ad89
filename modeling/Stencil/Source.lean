import Stencil.Span
import Stencil.Text.Bytes
/-!
Lines of a source text. The line table holds the first byte of every line and ends with the length of
the text; a text that ends in a newline has no line after it.
-/
set_option autoImplicit false

namespace Stencil

structure Source where
  text : String
deriving Repr, Inhabited

namespace Source

def chars (s : Source) : List Char := s.text.toList

def size (s : Source) : Nat := Text.byteLength s.chars

/-- Positions just after each newline of a text that starts at `pos`. -/
def newlineEnds (pos : Nat) : List Char → List Nat
  | [] => []
  | c :: cs =>
    let next := pos + c.utf8Size
    if c = '\n' then next :: newlineEnds next cs else newlineEnds next cs

/-- First byte of every line, then the length of the text where no line starts there already. -/
def lineStarts (s : Source) : List Nat :=
  let starts := 0 :: newlineEnds 0 s.chars
  if starts.getLast? != some s.size || s.chars.isEmpty then starts ++ [s.size] else starts

def lineCount (s : Source) : Nat := s.lineStarts.length - 1

/-- The line of a byte, counted from zero. The end of a text belongs to its last line. -/
def lineIndex (s : Source) (offset : Nat) : Nat :=
  match s.lineStarts.idxOf? offset with
  | some i => min i (max s.lineCount 1 - 1)
  | none => max (s.lineStarts.takeWhile (· < offset)).length 1 - 1

/-- Line and column of a byte, both counted from one. A byte past the end counts as the end. -/
def lineCol (s : Source) (offset : Nat) : Nat × Nat :=
  let offset := min offset s.size
  let line := s.lineIndex offset
  (line + 1, offset - s.lineStarts.getD line 0 + 1)

def dropLineEnd (cs : List Char) : List Char :=
  (cs.reverse.dropWhile fun c => c = '\n' || c = '\r').reverse

def lineText? (s : Source) (line : Nat) : Option String :=
  match line with
  | 0 => none
  | n + 1 => do
    let start ← s.lineStarts[n]?
    let stop ← s.lineStarts[n + 1]?
    let cs ← Text.slice? s.chars start stop
    return String.ofList (dropLineEnd cs)

def lineSpan? (s : Source) (line : Nat) : Option Span := do
  let start ← s.lineStarts[line - 1]?
  let text ← s.lineText? line
  return ⟨start, start + Text.byteLength text.toList⟩

def snippet (s : Source) (span : Span) : String :=
  String.ofList (Text.slice s.chars span.start span.stop)

end Source

end Stencil
