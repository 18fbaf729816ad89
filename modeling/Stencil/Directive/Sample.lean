import Stencil.Directive.Section
import Stencil.Inspect
/-!
Actions for directives of a host program: one that changes the text of its body, and some that show what
reaches an action.
-/
set_option autoImplicit false

namespace Stencil.Invocation

def upperCase (i : Invocation) : Compile Step := do
  i.expectNoArgs
  let s ← i.body (.requires "upper" "a body")
  return .transform (fun text => String.ofList (Text.upper text.toList)) (← s.compile)

def leak (_ : Invocation) : Compile Step := do
  let k ← Compile.contextKind
  Compile.modifyScope fun s => s.push k .declarations
  return .text ""

def showSteps (i : Invocation) : Compile Step := do
  let shown ← i.sections.mapM fun s => do
    let b ← s.compile
    return Body.inspect b ++ "/" ++ (if b.isEmpty then "true" else "false") ++ ";"
  return .text (String.join shown)

def showSections (i : Invocation) : Compile Step :=
  let shown := i.sections.map fun s =>
    let control := match s.control with
      | some t => t.name ++ ":" ++ t.args
      | none => "-"
    "[" ++ control ++ "|" ++ s.text ++ "]"
  return .text ("<" ++ i.tag.name ++ "|" ++ i.tag.args ++ ">" ++ String.join shown)

end Stencil.Invocation
