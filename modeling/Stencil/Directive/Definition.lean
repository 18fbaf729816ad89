import Stencil.Directive.Section
/-!
`let`, `define` and `undef`. A let binds names for its body only. A definition binds a name in the
nearest frame that takes definitions, and stays in force after the directive; where the context of that
frame has variables, it sets one of them.
-/
set_option autoImplicit false

namespace Stencil.Directive

def expectNotLet (name : String) (span : Span) : Compile Unit := do
  if ((← Compile.scope).letOwner? (← Compile.caseSensitive) name).isSome then
    throw (.of (.alreadyLet name) span)

def checkBindings (before : List String) : List LetBinding → Compile Unit
  | [] => return ()
  | b :: bs => do
    expectNotLet b.name b.nameSpan
    let cs ← Compile.caseSensitive
    if before.any fun n => sameName cs n b.name then throw (.of (.boundTwice b.name) b.nameSpan)
    checkBindings (b.name :: before) bs

def bindingValues : List LetBinding → Compile (List Typed)
  | [] => return []
  | b :: bs => do
    let v ← Compile.elaborate b.value
    let vs ← bindingValues bs
    return v :: vs

def declareSlots (frame : Nat) (origin : Origin) : List (String × Kind) → Compile (List Nat)
  | [] => return []
  | (name, kind) :: more => do
    let slot ← Compile.allocate
    Compile.declare frame name (.slot slot kind origin)
    let slots ← declareSlots frame origin more
    return slot :: slots

def letBlock : Directive (Invocation → Compile Step) where
  name := "let"
  words := []
  body := fun _ => .nested
  action := fun i => do
    if i.tag.args.isEmpty then throw (i.fault (.requires "let" "at least one binding"))
    let bs ← Compile.arguments Arguments.readLetBindings i.tag.args i.tag.argsSpan
    checkBindings [] bs
    let values ← bindingValues bs
    let s ← i.body (.requires "let" "a body")
    let (slots, body) ← Compile.withFrame (← Compile.contextKind) .lets fun frame => do
      let slots ← declareSlots frame .letBinding (List.zipWith (fun b v => (b.name, v.kind)) bs values)
      return (slots, ← s.compile)
    return .bind slots (values.map (·.code)) body

def bindValue (name : String) (t : Typed) : Compile Step := do
  let s ← Compile.scope
  let frame := s.declarationFrame
  if s.binder? frame = some .dynamic then
    Compile.declare frame name (.variable frame name t.kind)
    return .setVariable frame name t.code
  else
    let slot ← Compile.allocate
    Compile.declare frame name (.slot slot t.kind .definition)
    return .setSlot slot t.code

/-- The parts of a definition's body: what runs without writing, and what is written. -/
def parts (i : Invocation) : Compile (Body × Body) := do
  match ← i.splitOn "out" with
  | (s, none) => return ([], ← s.compile)
  | (compute, some emit) =>
    let c ← compute.compile
    return (c, ← emit.compile)

def parameterLimit : Nat := 5

/-- Checks the parameters of a fragment, the ones before them being given. -/
def checkParameters (before : List String) : List Expr.Segment → Compile Unit
  | [] => return ()
  | p :: ps => do
    let cs ← Compile.caseSensitive
    if before.any fun n => sameName cs n p.name then throw (.of (.parameterTwice p.name) p.span)
    expectNotLet p.name p.span
    checkParameters (p.name :: before) ps

/-- Defines a fragment. Its body is compiled before its name is bound. -/
def defineFragment (i : Invocation) (name : String) (params : List Expr.Segment) : Compile Step := do
  match params.drop parameterLimit with
  | p :: _ => throw (.of (.tooManyParameters name params.length parameterLimit) p.span)
  | [] =>
    checkParameters [] params
    let frame := (← Compile.scope).declarationFrame
    let snapshot ← Compile.allocate
    let (slots, compute, emit) ← Compile.withFrame (← Compile.contextKind) .parameters fun inner => do
      let slots ← declareSlots inner .parameter (params.map fun p => (p.name, .any))
      return (slots, ← parts i)
    Compile.declare frame name (.fragment ⟨name, slots, snapshot, compute, emit⟩)
    return .snapshot snapshot

def define : Directive (Invocation → Compile Step) where
  name := "define"
  words := ["out"]
  body := fun args => if args.toList.contains '=' then .none else .nested
  action := fun i => do
    if i.tag.args.isEmpty then throw (i.fault (.requires "define" "a name"))
    let head ← Compile.arguments Arguments.readDefineHead i.tag.args i.tag.argsSpan
    expectNotLet head.name head.nameSpan
    match head.form with
    | .value lenient e =>
      let t ← if lenient then Compile.elaborateWith false e else Compile.elaborate e
      bindValue head.name t
    | .body none =>
      let (compute, emit) ← parts i
      bindValue head.name ⟨.rendered compute emit, .text⟩
    | .body (some params) => defineFragment i head.name params

/-- Removes a definition, or hides it to the end of the block when it belongs to an outer one. -/
def undef : Directive (Invocation → Compile Step) where
  name := "undef"
  words := []
  body := fun _ => .none
  action := fun i => do
    if i.tag.args.isEmpty then throw (i.fault (.requires "undef" "a name"))
    let ⟨name, span⟩ ← Compile.arguments Arguments.readVariableName i.tag.args i.tag.argsSpan
    let c ← read
    let cs ← Compile.caseSensitive
    let s ← Compile.scope
    match s.lookup c.host c.world cs name with
    | none | some (_, .hidden) => throw (.of (.neverDefined name) span)
    | some (_, .slot _ _ .letBinding) => throw (.of (.undefinesLet name) span)
    | some (_, .slot _ _ .parameter) => throw (.of (.undefinesParameter name) span)
    | some (owner, _) =>
      let frame := s.declarationFrame
      if owner ≠ frame then
        Compile.declare frame name .hidden
        return .text ""
      else
        Compile.modifyScope fun s => s.remove owner cs name
        if s.binder? owner = some .dynamic then
          Compile.declare owner name .hidden
          return .unsetVariable owner name
        else return .text ""

end Stencil.Directive
