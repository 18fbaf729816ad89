import Stencil.Fault.Basic
import Stencil.Source
/-!
Faults with their place. Once located, a diagnostic shows the line it points into and underlines the
characters of its range.
-/
set_option autoImplicit false

namespace Stencil

structure Label where
  span : Span
  message : String
  location : Option (Nat × Nat)
deriving Repr, Inhabited

structure Excerpt where
  line : Nat
  column : Nat
  text : String
deriving Repr, Inhabited

structure Diagnostic where
  fault : Fault
  span : Span
  labels : List Label
  notes : List String
  excerpt : Option Excerpt
deriving Repr, Inhabited

namespace Diagnostic

def of (fault : Fault) (span : Span) : Diagnostic := ⟨fault, span, [], [], none⟩

def ofReading (e : SyntaxError) : Diagnostic := of (.reading e.fault) e.span

def addLabel (d : Diagnostic) (span : Span) (message : String) : Diagnostic :=
  { d with labels := d.labels ++ [⟨span, message, none⟩] }

def addNote (d : Diagnostic) (note : String) : Diagnostic := { d with notes := d.notes ++ [note] }

/-- The same diagnostic in a text that starts at `base` of a larger one. -/
def shift (d : Diagnostic) (base : Nat) : Diagnostic :=
  { d with
    span := d.span.shift base
    labels := d.labels.map fun l => { l with span := l.span.shift base } }

/-- Attaches lines and columns; a diagnostic that has them keeps them. -/
def locate (d : Diagnostic) (s : Source) : Diagnostic :=
  match d.excerpt with
  | some _ => d
  | none =>
    let (line, column) := s.lineCol d.span.start
    { d with
      excerpt := some ⟨line, column, (s.lineText? line).getD ""⟩
      labels := d.labels.map fun l => { l with location := some (s.lineCol l.span.start) } }

def location (d : Diagnostic) : Option (Nat × Nat) := d.excerpt.map fun e => (e.line, e.column)

def underline (e : Excerpt) (span : Span) : Nat × Nat :=
  let cs := e.text.toList
  let size := Text.byteLength cs
  let start := min (e.column - 1) size
  let stop := min (start + span.length) size
  let pad := match Text.slice? cs 0 start with
    | some head => head.length
    | none => start
  let width := match Text.slice? cs start stop with
    | some under => under.length
    | none => 0
  (pad, max width 1)

def padLeft (width : Nat) (s : String) : String :=
  String.ofList (List.replicate (width - s.length) ' ') ++ s

def showExcerpt (e : Excerpt) (span : Span) : String :=
  let (pad, width) := underline e span
  "\n  --> " ++ toString e.line ++ ":" ++ toString e.column ++
    "\n   |\n" ++ padLeft 3 (toString e.line) ++ " | " ++ e.text ++
    "\n    | " ++ String.ofList (List.replicate pad ' ' ++ List.replicate width '^')

def showLabel (l : Label) : String :=
  "\n   = note: " ++ l.message ++ match l.location with
    | some (line, column) => " (at " ++ toString line ++ ":" ++ toString column ++ ")"
    | none => ""

def display (d : Diagnostic) : String :=
  "error: " ++ d.fault.classify.label ++ ": " ++ d.fault.message ++
    (match d.excerpt with
      | some e => showExcerpt e d.span
      | none => "") ++
    String.join (d.labels.map showLabel) ++
    String.join (d.notes.map fun n => "\n   = help: " ++ n)

end Diagnostic

end Stencil
