import Stencil.Expr.Arguments
import Stencil.Options
import Stencil.Template.Document
import Stencil.Typing.Elaborate
set_option autoImplicit false

namespace Stencil

structure Compiler where
  source : Source
  host : Host
  world : World
  types : Table NamedType
  resolvers : List Resolver
  options : Options

/-- What changes: the names in force, and the namespaces that may be left out. -/
structure Names where
  scope : Scope
  namespaces : List String

instance : Inhabited Names := ⟨⟨default, []⟩⟩

abbrev Compile (α : Type) : Type := ReaderT Compiler (StateT Names (Except Diagnostic)) α

structure Section where
  control : Option Tag
  span : Span
  text : String
  compile : Compile Body

structure Invocation where
  tag : Tag
  sections : List Section

abbrev Directives : Type := Registry (Invocation → Compile Step)

namespace Invocation

def fault (i : Invocation) (f : Fault) : Diagnostic := .of f i.tag.span

def expectNoArgs (i : Invocation) : Compile Unit :=
  if i.tag.args.isEmpty then pure () else throw (.of (.noArguments i.tag.name) i.tag.argsSpan)

end Invocation

namespace Compile

def setting (strict : Bool) : Compile Setting := do
  let c ← read
  let n ← get
  return ⟨c.host, c.world, n.scope, c.types, n.namespaces, c.resolvers, c.options.caseSensitive, strict⟩

variable {α : Type}

def ofExcept (e : Except Diagnostic α) : Compile α :=
  match e with
  | .ok a => pure a
  | .error d => throw d

def expressionWith (strict : Bool) (text : String) (span : Span) : Compile Typed := do
  ofExcept ((← setting strict).elaborateText text span.start)

def expression (text : String) (span : Span) : Compile Typed := do
  expressionWith (← read).options.strict text span

def elaborateWith (strict : Bool) (e : Expr) : Compile Typed := do
  ofExcept ((← setting strict).elaborate e)

def elaborate (e : Expr) : Compile Typed := do elaborateWith (← read).options.strict e

def predicate (text : String) (span : Span) : Compile Typed := do
  let o := (← read).options
  let t ← expressionWith (o.strict && !o.lenientPredicates) text span
  ofExcept (t.coerceTo .bool span)

def arguments (reader : String → Nat → Except SyntaxError α) (text : String) (span : Span) : Compile α :=
  match reader text span.start with
  | .ok a => pure a
  | .error e => throw (.ofReading e)

def scope : Compile Scope := do return (← get).scope

def modifyScope (f : Scope → Scope) : Compile Unit := modify fun n => { n with scope := f n.scope }

def contextKind : Compile Kind := do return (← scope).current.context

def caseSensitive : Compile Bool := do return (← read).options.caseSensitive

def allocate : Compile Nat := do
  let (slot, s) := (← scope).allocate
  modifyScope fun _ => s
  return slot

def declare (frame : Nat) (name : String) (b : Binding) : Compile Unit :=
  modifyScope fun s => s.declare frame name b

def withFrame (context : Kind) (binder : BinderKind) (f : Nat → Compile α) : Compile α := do
  modifyScope fun s => s.push context binder
  let a ← f (← scope).currentIndex
  modifyScope Scope.pop
  return a

def addNamespace (ns : String) : Compile Unit := do
  let cs ← caseSensitive
  modify fun n =>
    if n.namespaces.any fun m => sameName cs m ns then n else { n with namespaces := n.namespaces ++ [ns] }

/-- Compiles a directive and checks that it left the frames as they were. -/
def directive (reg : Directives) (tag : Tag) (sections : List Section) : Compile Step := do
  match reg.get? tag.name with
  | none => throw (reg.unknown tag)
  | some d =>
    let depth := (← scope).depth
    let step ← d.action ⟨tag, sections⟩
    let after := (← scope).depth
    if after = depth then return step
    else throw (.of (.unbalanced tag.name after depth) tag.span)

mutual

def node (reg : Directives) : Node → Compile Step
  | .text s => return .text s
  | .expr text span => do return .emit (← expression text span).code
  | .directive tag ss => directive reg tag (sections reg ss)
  | .fault d => throw d

def nodes (reg : Directives) : List Node → Compile (List Step)
  | [] => return []
  | n :: ns => do
    let s ← node reg n
    let ss ← nodes reg ns
    return s :: ss

def sections (reg : Directives) : List DocSection → List Section
  | [] => []
  | .mk control span text ns :: ss =>
    ⟨control, span, text, do return Body.ofSteps (← nodes reg ns)⟩ :: sections reg ss

end

def body (reg : Directives) (ns : List Node) : Compile Body := do return Body.ofSteps (← nodes reg ns)

end Compile

end Stencil
