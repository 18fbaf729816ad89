import Stencil.Template.Compile
set_option autoImplicit false

namespace Stencil.Invocation

/-- The section of a directive, and the one after its only control word. -/
def splitOn (i : Invocation) (word : String) : Compile (Section × Option Section) :=
  match i.sections with
  | [] => throw (i.fault (.requires i.tag.name "a body"))
  | [first] => return (first, none)
  | [first, second] =>
    match second.control with
    | none => return (first, none)
    | some tag =>
      if tag.name ≠ word then throw (.of (.notValidIn tag.name i.tag.name) tag.span)
      else if !tag.args.isEmpty then throw (.of (.noArguments tag.name) tag.argsSpan)
      else return (first, some second)
  | _ :: _ :: third :: _ =>
    throw (.of (.onlyOnce word i.tag.name) ((third.control.map (·.span)).getD i.tag.span))

def body (i : Invocation) (f : Fault) : Compile Section :=
  match i.sections with
  | s :: _ => return s
  | [] => throw (i.fault f)

end Stencil.Invocation
