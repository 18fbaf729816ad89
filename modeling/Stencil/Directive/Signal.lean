import Stencil.Directive.Section
set_option autoImplicit false

namespace Stencil.Directive

/-- Fails unless a condition holds; without a message, the text of the condition is it. -/
def assertion : Directive (Invocation → Compile Step) where
  name := "assert"
  words := []
  body := fun _ => .none
  action := fun i => do
    if i.tag.args.isEmpty then throw (i.fault (.requires "assert" "a predicate"))
    let (predicate, message) ← Compile.arguments Arguments.readAssertion i.tag.args i.tag.argsSpan
    let shown := Region.trimmed ((← read).source.snippet predicate.span).toList
    let test ← Compile.elaborate predicate
    let test ← Compile.ofExcept (test.coerceTo .bool predicate.span)
    let message ← match message with
      | some e => pure (← Compile.elaborate e).code
      | none => pure (.const (.text (String.ofList shown)))
    return .assert test.code message

def failure : Directive (Invocation → Compile Step) where
  name := "error"
  words := []
  body := fun args => if (Region.trimmed args.toList).isEmpty then .nested else .none
  action := fun i => do
    if !i.tag.args.isEmpty then return .raise i.tag.args
    let s ← i.body (.requires "error" "a message")
    return .raiseText (← s.compile)

def passesBound : Nat := Nat.pow 2 64

def passes? (cs : List Char) : Option Nat := do
  let digits := match cs with
    | '+' :: ds => ds
    | ds => ds
  let n ← Decimal.readNat? digits
  if 0 < n && n < passesBound then some n else none

def afterPasses? (text : String) : Option (List Char) := do
  let rest ← Text.stripWord? "passes".toList text.toList
  match rest with
  | [] => some []
  | c :: _ => if Text.isBlank c then some rest else none

/-- Limits the number of passes, or tells the host program. -/
def pragma : Directive (Invocation → Compile Step) where
  name := "pragma"
  words := []
  body := fun _ => .none
  action := fun i => do
    if i.tag.args.isEmpty then throw (i.fault (.requires "pragma" "an argument"))
    match afterPasses? i.tag.args with
    | some rest =>
      match passes? (Region.trimmed rest) with
      | some n => return .passCap n
      | none => throw (.of .passesExpected i.tag.argsSpan)
    | none =>
      if (← read).host.pragma.isSome then return .pragma i.tag.args else return .text ""

end Stencil.Directive
