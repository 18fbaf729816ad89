import Stencil.Directive.Section
set_option autoImplicit false

namespace Stencil.Directive

def branch (word args : String) (argsSpan span : Span) (s : Section) : Compile (Code × Body) := do
  if args.isEmpty then throw (.of (.requires word "a predicate") span)
  let test ← Compile.predicate args argsSpan
  return (test.code, ← s.compile)

/-- Branches after the first, up to the last one, which may have no condition. -/
def branches (i : Invocation) : Option Body → List Section → Compile Body
  | fallback, [] => return fallback.getD []
  | fallback, s :: ss => do
    let tag := s.control.getD i.tag
    if fallback.isSome then throw (.of (.afterElse tag.name) tag.span)
    if tag.name = "else" then
      if !tag.args.isEmpty then throw (.of (.noArguments "else") tag.argsSpan)
      let fallback ← s.compile
      branches i (some fallback) ss
    else
      let (test, yes) ← branch tag.name tag.args tag.argsSpan tag.span s
      let no ← branches i none ss
      return [.choose test yes no]

def conditional : Directive (Invocation → Compile Step) where
  name := "if"
  words := ["elif", "else"]
  body := fun _ => .nested
  action := fun i => do
    match i.sections with
    | [] => throw (i.fault (.emptyBody "if"))
    | first :: more =>
      if first.span.isEmpty then throw (i.fault (.emptyBody "if"))
      let (test, yes) ← branch "if" i.tag.args i.tag.argsSpan i.tag.span first
      return .choose test yes (← branches i none more)

end Stencil.Directive
