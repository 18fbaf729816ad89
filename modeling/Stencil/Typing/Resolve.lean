import Stencil.Expr.Basic
import Stencil.Typing.Setting
set_option autoImplicit false

namespace Stencil

/-- Members of a receiver: fields, static members, variables. A receiver of unknown kind is asked when its
value exists. -/
def memberOf (h : Host) (w : World) (r : NameRequest) : Option Typed :=
  match r.receiver.kind with
  | .any | .null => some ⟨.lateMember r.receiver.code r.name r.caseSensitive r.strict, .any⟩
  | k => do
    let t ← h.describe w k
    match t.field? r.caseSensitive r.name with
    | some f => return ⟨.field r.receiver.code f, f.kind⟩
    | none =>
      match t.static? r.caseSensitive r.name with
      | some m => return .const w m.value
      | none =>
        if t.isDynamic then
          let kind ← (t.variableKind? r.caseSensitive r.name) <|> (if r.strict then none else some .any)
          return ⟨.property r.receiver.code r.name r.caseSensitive, kind⟩
        else none

namespace Setting

def resolveWith (s : Setting) (r : NameRequest) : List Resolver → Except Diagnostic (Option Typed)
  | [] => .ok (memberOf s.host s.world r)
  | f :: fs => do
    match ← f r with
    | some t => return some t
    | none => s.resolveWith r fs

def resolve (s : Setting) (r : NameRequest) : Except Diagnostic (Option Typed) :=
  s.resolveWith r s.resolvers

def request (s : Setting) (receiver : Typed) (name : String) (qualifier : Option String) (span : Span) :
    NameRequest :=
  ⟨receiver, name, qualifier, span, s.caseSensitive, s.strict⟩

def callFragment (f : Fragment) (args : List Typed) (span : Span) : Except Diagnostic Typed :=
  if args.length = f.params.length then
    .ok ⟨.fragment f.name f.params f.snapshot f.compute f.emit (args.map (·.code)), .text⟩
  else .error (.of (.wrongArity f.name f.params.length args.length) span)

def tryName (s : Setting) (name : String) (span : Span) : Except Diagnostic (Option Typed) :=
  match s.lookup name with
  | some (_, .slot n k _) => .ok (some ⟨.slot n, k⟩)
  | some (_, .variable frame n k) => .ok (some ⟨.variable frame n k s.caseSensitive, k⟩)
  | some (_, .fragment f) =>
    if f.params.isEmpty then (callFragment f [] span).map some
    else .error (.of (.needsCall f.name f.params.length) span)
  | some (_, .hidden) | none => s.resolve (s.request s.receiver name none span)

def name (s : Setting) (name : String) (span : Span) : Except Diagnostic Typed := do
  match ← s.tryName name span with
  | some t => return t
  | none => s.unresolved (.unresolved name) span

def member (s : Setting) (receiver : Typed) (name : String) (span : Span) (qualifier : Option String) :
    Except Diagnostic Typed := do
  match ← s.resolve (s.request receiver name qualifier span) with
  | some t => return t
  | none => s.unresolved (.noMember receiver.kind name) span

inductive Head where
  | value (t : Typed)
  | type (t : NamedType)

def joinPath (path : List Expr.Segment) : String := ".".intercalate (path.map (·.name))

/-- The longest front of a path, of at most `n` names, that is the name of a type. -/
def typeFront? (s : Setting) (ns : String) (path : List Expr.Segment) : Nat → Option (NamedType × Nat)
  | 0 => none
  | n + 1 =>
    match s.types.lookup s.caseSensitive (ns ++ joinPath (path.take (n + 1))) with
    | some t => some (t, n + 1)
    | none => s.typeFront? ns path n

def addHit (hits : List (NamedType × Nat)) (hit : Option (NamedType × Nat)) : List (NamedType × Nat) :=
  match hit with
  | some (t, n) => if hits.any fun h => h.1.full == t.full then hits else hits ++ [(t, n)]
  | none => hits

def impliedType (s : Setting) (path : List Expr.Segment) : Except Diagnostic (Option (Head × Nat)) :=
  let hits := s.namespaces.foldl (fun hits ns => addHit hits (s.typeFront? (ns ++ ".") path path.length)) []
  match hits with
  | [] => .ok none
  | [(t, n)] => .ok (some (.type t, n))
  | hits =>
    let span := (path.head?.map (·.span)).getD default
    let last := (path.getLast?.map (·.span)).getD default
    .error (.of (.ambiguousPath (joinPath path) (hits.map fun h => h.1.full)) (span.merge last))

/-- What a path starts with, and how many of its names that takes. Names that resolve only for lack of
strictness do not hide types, and a name settled late yields to a type of an implied namespace. -/
def head (s : Setting) (first : Expr.Segment) (path : List Expr.Segment) :
    Except Diagnostic (Option (Head × Nat)) := do
  let isLocal := (s.lookup first.name).any fun b => !b.2.isHidden
  let typed := if isLocal then none else s.typeFront? "" path path.length
  match typed with
  | some (t, n) => return some (.type t, n)
  | none =>
    match ← ({ s with strict := true } : Setting).tryName first.name first.span with
    | none => s.impliedType path
    | some t =>
      if t.kind.isAny && !isLocal then
        match ← s.impliedType path with
        | some h => return some h
        | none => return some (.value t, 1)
      else return some (.value t, 1)

def staticValue (s : Setting) (t : NamedType) (name : String) (span : Span) : Except Diagnostic Typed :=
  let found := match t with
    | .host id _ => ((s.host.type id).static? s.caseSensitive name).map (·.value)
    | .enum e => (e.variant? s.caseSensitive name).map fun v => .enum e v
  match found with
  | some v => .ok (s.const v)
  | none => s.unresolved (.noStaticMember t.full name) span

/-- The members of a path after what it starts with; `before` are the names read so far. -/
def members (s : Setting) (t : Typed) (before : List Expr.Segment) :
    List Expr.Segment → Except Diagnostic Typed
  | [] => .ok t
  | m :: ms => do
    let t ← s.member t m.name m.span (some (joinPath before))
    s.members t (before ++ [m]) ms

def path (s : Setting) (first : Expr.Segment) (path : List Expr.Segment) : Except Diagnostic Typed := do
  match ← s.head first path with
  | none =>
    let t ← s.name first.name first.span
    s.members t (path.take 1) (path.drop 1)
  | some (.value t, n) => s.members t (path.take n) (path.drop n)
  | some (.type t, n) =>
    match path.drop n with
    | [] =>
      let last := ((path.take n).getLast?.map (·.span)).getD first.span
      throw (.of (.typeAsValue t.full) (first.span.merge last))
    | m :: ms =>
      let v ← s.staticValue t m.name m.span
      s.members v (path.take (n + 1)) ms

end Setting

end Stencil
