import Stencil.Directive.Registry
import Stencil.Template.Region
/-!
Where the body of a directive ends. A nested body is read region by region, stepping over the bodies of
the directives inside it; a verbatim body ends at the first terminator.
-/
set_option autoImplicit false

namespace Stencil

/-- A section of a body: the control tag before it, where it starts, the text from there on, and what of
that text is no longer its own. -/
structure RawSection (n : Nat) where
  control : Option Tag
  start : Nat
  onward : List Char
  beyond : List Char
  within : onward.length ≤ n

namespace RawSection

def chars {n : Nat} (s : RawSection n) : List Char := Text.before s.onward s.beyond

theorem length_chars_le {n : Nat} (s : RawSection n) : s.chars.length ≤ n := by
  have := s.within
  simp only [chars, Text.before, List.length_take]; omega

def span {n : Nat} (s : RawSection n) : Span := Region.spanOf s.start s.chars

def widen {m n : Nat} (h : m ≤ n) (s : RawSection m) : RawSection n :=
  ⟨s.control, s.start, s.onward, s.beyond, Nat.le_trans s.within h⟩

end RawSection

/-- A body found in a text of `n` characters: its sections, where it ends, and what follows it. -/
structure FoundBody (n : Nat) where
  sections : List (RawSection n)
  stop : Nat
  rest : List Char
  shorter : rest.length < n

/-- The end of a section: the text from its boundary on, the control tag or, without one, the
terminator, and what follows that. -/
structure Boundary (n : Nat) where
  start : List Char
  control : Option Tag
  stop : Nat
  rest : List Char
  shorter : rest.length < n

variable {α : Type}

def Registry.unknown (reg : Registry α) (tag : Tag) : Diagnostic :=
  if reg.isControlWord tag.name then .of (.misplacedWord tag.name) tag.span
  else .of (.unknownDirective tag.name) tag.nameSpan

namespace FoundBody

def unterminated (tag : Tag) : Diagnostic := .of (.unterminated tag.name) tag.span

def verbatim (tag : Tag) (cs : List Char) : Except Diagnostic (FoundBody cs.length) :=
  let ending := (Fault.terminator tag.name).toList
  match h : Text.cut? ending cs with
  | none => .error (unterminated tag)
  | some (text, rest) =>
    let opener := "$$#".toList ++ tag.name.toList
    match Text.cut? opener text with
    | some (before, _) =>
      .error (.of (.nestedInItself tag.name)
        (Region.spanOf (tag.span.stop + Text.byteLength before) opener))
    | none =>
      .ok ⟨[⟨none, tag.span.stop, text, [], by rw [Text.cut?_eq_some h]; simp⟩],
        tag.span.stop + Text.byteLength text + Text.byteLength ending, rest, by
          have hl : 0 < ending.length := by simp [ending, Fault.terminator]
          rw [Text.cut?_eq_some h]; simp; omega⟩

mutual

/-- The body of a tag whose directive is registered; `cs` is the text after the tag. -/
def find (reg : Registry α) (tag : Tag) (cs : List Char) :
    Except Diagnostic (Option (FoundBody cs.length)) :=
  match reg.get? tag.name with
  | none => .error (reg.unknown tag)
  | some d =>
    match d.body tag.args with
    | .none => .ok none
    | .verbatim => (verbatim tag cs).map some
    | .nested => (readSections reg tag d.words none tag.span.stop cs).map some
termination_by 3 * cs.length + 2

/-- The sections of a nested body, from the one that starts at `pos` on. -/
def readSections (reg : Registry α) (owner : Tag) (words : List String) (control : Option Tag) (pos : Nat)
    (cs : List Char) : Except Diagnostic (FoundBody cs.length) := do
  let ⟨start, next, stop, rest, h⟩ ← boundary reg owner words pos cs
  let first : RawSection cs.length := ⟨control, pos, cs, start, Nat.le_refl _⟩
  match next with
  | none => return ⟨[first], stop, rest, h⟩
  | some tag =>
    let ⟨more, stop, rest, h'⟩ ← readSections reg owner words (some tag) tag.span.stop rest
    return ⟨first :: more.map (RawSection.widen (Nat.le_of_lt h)), stop, rest, Nat.lt_trans h' h⟩
termination_by 3 * cs.length + 1
decreasing_by all_goals omega

def boundary (reg : Registry α) (owner : Tag) (words : List String) (pos : Nat) (cs : List Char) :
    Except Diagnostic (Boundary cs.length) :=
  match hn : Region.next pos cs with
  | .error d => .error d
  | .ok none => .error (unterminated owner)
  | .ok (some (region, rest)) =>
    have h : rest.length < cs.length := Region.next_shorter hn
    match region with
    | .text _ | .expr _ _ => do
      let ⟨start, next, stop, rest', h'⟩ ← boundary reg owner words region.stop rest
      return ⟨start, next, stop, rest', Nat.lt_trans h' h⟩
    | .opening tag =>
      if reg.contains tag.name then do
        match ← find reg tag rest with
        | none =>
          let ⟨start, next, stop, rest', h'⟩ ← boundary reg owner words tag.span.stop rest
          return ⟨start, next, stop, rest', Nat.lt_trans h' h⟩
        | some ⟨_, stop, after, ha⟩ =>
          let ⟨start, next, stop, rest', h'⟩ ← boundary reg owner words stop after
          return ⟨start, next, stop, rest', by omega⟩
      else if words.contains tag.name then .ok ⟨cs, some tag, tag.span.stop, rest, h⟩
      else .error (reg.unknown tag)
    | .closing name span =>
      if name = owner.name then .ok ⟨cs, none, span.stop, rest, h⟩
      else .error (.of (.wrongTerminator name owner.name) span)
termination_by 3 * cs.length
decreasing_by all_goals omega

end

end FoundBody

end Stencil
