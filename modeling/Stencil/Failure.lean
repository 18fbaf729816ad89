import Stencil.World
set_option autoImplicit false

namespace Stencil

inductive Failure where
  | assertion (message : String)
  | raised (message : String)
  | unstable (passes : Nat)
  | unresolved (name : String)
  | divisionByZero
  | indexOutOfRange (index : Int) (length : Nat)
  | mismatch (expected found : String)
  | notInvocable (name reason : String)
  /-- A pattern that cannot be read, or a flag that is unknown. -/
  | invalidPattern (source : String) (unknownFlag : Option Char)
  | host (message : String)
deriving DecidableEq, Repr, Inhabited

namespace Failure

def invalidPatternText (source : String) : Option Char → String
  | some c => "invalid regex '" ++ source ++ "': unknown flag '" ++ String.singleton c ++ "'"
  | none => "invalid regex '" ++ source ++ "'"

def message : Failure → String
  | assertion m => "assertion failed: " ++ m
  | raised m => m
  | unstable n => "template did not stabilise after " ++ toString n ++ " passes"
  | unresolved n => "unresolved name '" ++ n ++ "'"
  | divisionByZero => "division by zero"
  | indexOutOfRange i n => "index " ++ toString i ++ " is out of range for length " ++ toString n
  | mismatch e f => "type mismatch: expected " ++ e ++ ", found " ++ f
  | notInvocable n r => "'" ++ n ++ "' cannot be invoked: " ++ r
  | invalidPattern s c => invalidPatternText s c
  | host m => "host error: " ++ m

def title : Failure → String
  | assertion _ => "AssertionFailed"
  | raised _ => "Raised"
  | unstable _ => "LoopDetected"
  | unresolved _ => "UnresolvedName"
  | divisionByZero => "DivideByZero"
  | indexOutOfRange _ _ => "IndexOutOfRange"
  | mismatch _ _ => "TypeMismatch"
  | notInvocable _ _ => "NotInvocable"
  | invalidPattern _ _ => "InvalidRegex"
  | host _ => "Host"

end Failure

/-- An action on the world that can fail. What it changed before a failure stays changed. -/
abbrev Act (α : Type) : Type := ExceptT Failure (StateM World) α

namespace Act

def ofWorld {α : Type} (f : World → Except Failure α) : Act α := fun w => (f w, w)

end Act

namespace Regex

def readFlags (source : String) (f : Pattern.Flags) : List Char → Except Failure Pattern.Flags
  | [] => .ok f
  | c :: cs =>
    if c = 'i' || c = 'm' || c = 's' || c = 'x' || c = 'U' then
      readFlags source ((f.put? c true).getD f) cs
    else .error (.invalidPattern source (some c))

def ofText (source flags : String) : Except Failure Regex := do
  let f ← readFlags source .default flags.toList
  match Pattern.ofText? f source with
  | some p => return ⟨source, p⟩
  | none => throw (.invalidPattern source none)

end Regex

end Stencil
