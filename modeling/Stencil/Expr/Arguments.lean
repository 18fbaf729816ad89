import Stencil.Expr.Parser
set_option autoImplicit false

namespace Stencil

structure LetBinding where
  name : String
  nameSpan : Span
  value : Expr
deriving Repr, Inhabited

inductive DefineForm where
  /-- A value; a lenient one (`=?`) reads unresolved names as empty. -/
  | value (lenient : Bool) (value : Expr)
  /-- A body follows; with a parameter list it is a fragment. -/
  | body (params : Option (List Expr.Segment))
deriving Repr, Inhabited

structure DefineHead where
  name : String
  nameSpan : Span
  form : DefineForm
deriving Repr, Inhabited

namespace Arguments

open Stencil.Expr (Reading Segment expect parse readWhole)

def bindingName (stop : Nat) : (ts : List Placed) → Reading Segment ts
  | ⟨.name n, span⟩ :: rest => .ok ⟨⟨n, span⟩, rest, Placed.length_rest_lt rest⟩
  | ts => .error ⟨.notAName (Placed.next? ts), Placed.here stop ts⟩

def letBindings (stop : Nat) (ts : List Placed) : Reading (List LetBinding) ts := do
  let ⟨name, rest, h⟩ ← bindingName stop ts
  let ⟨_, rest₁, h₁⟩ ← expect .eq stop rest
  let ⟨value, rest₂, h₂⟩ ← parse stop rest₁
  let binding : LetBinding := ⟨name.name, name.span, value⟩
  match rest₂, h₂ with
  | ⟨.fixed .comma, _⟩ :: rest₃, h₂ => do
    let ⟨more, rest₄, h₄⟩ ← letBindings stop rest₃
    return ⟨binding :: more, rest₄, by simp only [List.length_cons] at h₂; omega⟩
  | rest₂, h₂ => return ⟨[binding], rest₂, by omega⟩
termination_by ts.length
decreasing_by simp only [List.length_cons] at *; omega

/-- Reads parameter names up to the closing parenthesis; a comma may follow the last. -/
def parameters (stop : Nat) (ts : List Placed) : Reading (List Segment) ts :=
  if Placed.isNext .rParen ts then do
    let ⟨_, rest, h⟩ ← expect .rParen stop ts
    return ⟨[], rest, h⟩
  else do
    let ⟨name, rest, h⟩ ← bindingName stop ts
    if Placed.isNext .rParen rest then
      let ⟨_, rest₁, h₁⟩ ← expect .rParen stop rest
      return ⟨[name], rest₁, by omega⟩
    else
      let ⟨_, rest₁, h₁⟩ ← expect .comma stop rest
      let ⟨more, rest₂, h₂⟩ ← parameters stop rest₁
      return ⟨name :: more, rest₂, by omega⟩
termination_by ts.length
decreasing_by omega

def defineHead (stop : Nat) (ts : List Placed) : Reading DefineHead ts := do
  let ⟨name, rest, h⟩ ← bindingName stop ts
  match rest, h with
  | ⟨.fixed .eq, _⟩ :: ⟨.fixed .question, _⟩ :: rest₁, h => do
    let ⟨value, rest₂, h₂⟩ ← parse stop rest₁
    return ⟨⟨name.name, name.span, .value true value⟩, rest₂, by simp only [List.length_cons] at h; omega⟩
  | ⟨.fixed .eq, _⟩ :: rest₁, h => do
    let ⟨value, rest₂, h₂⟩ ← parse stop rest₁
    return ⟨⟨name.name, name.span, .value false value⟩, rest₂, by simp only [List.length_cons] at h; omega⟩
  | ⟨.fixed .lParen, _⟩ :: rest₁, h => do
    let ⟨params, rest₂, h₂⟩ ← parameters stop rest₁
    return ⟨⟨name.name, name.span, .body (some params)⟩, rest₂, by simp only [List.length_cons] at h; omega⟩
  | rest, h => return ⟨⟨name.name, name.span, .body none⟩, rest, h⟩

def assertion (stop : Nat) (ts : List Placed) : Reading (Expr × Option Expr) ts := do
  let ⟨predicate, rest, h⟩ ← parse stop ts
  match rest, h with
  | ⟨.fixed .comma, _⟩ :: rest₁, h => do
    let ⟨message, rest₂, h₂⟩ ← parse stop rest₁
    return ⟨(predicate, some message), rest₂, by simp only [List.length_cons] at h; omega⟩
  | rest, h => return ⟨(predicate, none), rest, h⟩

def segments (stop : Nat) (ts : List Placed) : Reading (List Segment) ts :=
  match ts with
  | ⟨.name n, span⟩ :: ⟨.fixed .dot, _⟩ :: rest => do
    let ⟨more, rest₁, h₁⟩ ← segments stop rest
    return ⟨⟨n, span⟩ :: more, rest₁, by simp only [List.length_cons]; omega⟩
  | ⟨.name n, span⟩ :: rest => .ok ⟨[⟨n, span⟩], rest, Placed.length_rest_lt rest⟩
  | ts => .error ⟨.unexpected (Placed.next? ts) .inNamespace, Placed.here stop ts⟩
termination_by ts.length
decreasing_by simp only [List.length_cons]; omega

def joined (ss : List Segment) : Segment :=
  ⟨".".intercalate (ss.map (·.name)),
    ⟨(ss.head?.map (·.span.start)).getD 0, (ss.getLast?.map (·.span.stop)).getD 0⟩⟩

def readLetBindings : String → Nat → Except SyntaxError (List LetBinding) :=
  readWhole .binding .afterBinding letBindings

def readDefineHead : String → Nat → Except SyntaxError DefineHead :=
  readWhole .name .afterHead defineHead

def readAssertion : String → Nat → Except SyntaxError (Expr × Option Expr) :=
  readWhole .predicate .afterAssertion assertion

def readVariableName : String → Nat → Except SyntaxError Segment :=
  readWhole .variableName .afterVariable bindingName

def readNamespace (text : String) (base : Nat) : Except SyntaxError Segment :=
  (readWhole .ofNamespace .afterNamespace segments text base).map joined

end Arguments

end Stencil
