import Stencil.Template.Boundary
/-!
Template text as a tree. A directive holds its sections, and every section is read again on its own. A
fault ends the list of nodes it stands in; it counts only if that part of the template is compiled.
-/
set_option autoImplicit false

namespace Stencil

mutual

inductive Node where
  | text (s : String)
  | expr (text : String) (span : Span)
  | directive (tag : Tag) (sections : List DocSection)
  | fault (d : Diagnostic)

/-- A section of a directive: the control tag before it, its place, its text and its nodes. -/
inductive DocSection where
  | mk (control : Option Tag) (span : Span) (text : String) (nodes : List Node)

end

instance : Inhabited Node := ⟨.text ""⟩

namespace Node

variable {α : Type}

def read (reg : Registry α) (pos : Nat) (cs : List Char) : List Node :=
  match hn : Region.next pos cs with
  | .error d => [fault d]
  | .ok none => []
  | .ok (some (region, rest)) =>
    have _h : rest.length < cs.length := Region.next_shorter hn
    match region with
    | .text _ => text (String.ofList (Text.before cs rest)) :: read reg region.stop rest
    | .expr source span => expr source span :: read reg region.stop rest
    | .closing name span => [fault (.of (.strayTerminator name) span)]
    | .opening tag =>
      match FoundBody.find reg tag rest with
      | .error d => [fault d]
      | .ok none => directive tag [] :: read reg tag.span.stop rest
      | .ok (some ⟨sections, stop, after, _ha⟩) =>
        directive tag (sections.map fun s =>
          .mk s.control s.span (String.ofList s.chars) (read reg s.start s.chars)) ::
          read reg stop after
termination_by cs.length
decreasing_by
  all_goals first | omega | exact Nat.lt_of_le_of_lt s.length_chars_le _h

end Node

end Stencil
