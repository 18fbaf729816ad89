import Stencil.Expr.Parser
import Stencil.Typing.Call
set_option autoImplicit false

namespace Stencil

def Literal.value (span : Span) : Literal → Except Diagnostic Value
  | .null => .ok .null
  | .bool b => .ok (.bool b)
  | .int v k => .ok (.wrapped v k)
  | .float x k => .ok (.rounded x k)
  | .text s => .ok (.text s)
  | .pattern body flags =>
    match Regex.ofText body flags with
    | .ok r => .ok (.pattern r)
    | .error (.invalidPattern source flag) => .error (.of (.invalidPattern source flag) span)
    | .error f => .error (.of (.custom .grammar f.message) span)

def Kind.ofBranches (a b : Kind) : Kind :=
  if a == b then a
  else match a, b with
    | .null, k => if k.isNullable then k else .any
    | k, .null => if k.isNullable then k else .any
    | a, b => if a.isNumeric && b.isNumeric then (a.promote b).getD .any else .any

namespace Setting

def unary (op : UnaryOp) (operand : Typed) (span : Span) : Except Diagnostic Typed :=
  match op.kind operand.kind with
  | .ok k => .ok ⟨.unary op operand.code, k⟩
  | .error m => .error (.of (.misapplied m) span)

def binaryCode (op : BinaryOp) (l r : Code) (k : Kind) : Code :=
  match op with
  | .and => .both l r
  | .or => .either l r
  | .coalesce => .coalesce l r k
  | op => .binary op l r

def binary (op : BinaryOp) (l r : Typed) (span : Span) : Except Diagnostic Typed :=
  match op.kind l.kind r.kind with
  | .ok k => .ok ⟨binaryCode op l.code r.code k, k⟩
  | .error m => .error (.of (.misapplied m) span)

def choice (test yes no : Typed) (yesSpan noSpan : Span) : Except Diagnostic Typed := do
  let kind := yes.kind.ofBranches no.kind
  let yes ← yes.coerceTo kind yesSpan
  let no ← no.coerceTo kind noSpan
  return ⟨.choice test.code yes.code no.code, kind⟩

def index (s : Setting) (target position : Typed) (span : Span) : Except Diagnostic Typed :=
  let kind := if s.host.isDynamic s.world target.kind then some .any
    else s.host.element? s.world target.kind
  match kind with
  | some k => .ok ⟨.index target.code position.code, k⟩
  | none => .error (.of (.notIndexable target.kind) span)

def context (s : Setting) (n : Nat) (span : Span) : Except Diagnostic Typed :=
  match s.scope.context? n with
  | some k => .ok ⟨.context n, k⟩
  | none => .error (.of (.noContext n s.scope.depth) span)

mutual

def elaborate (s : Setting) : Expr → Except Diagnostic Typed
  | .literal l span => do return s.const (← l.value span)
  | .name n span => s.name n span
  | .context n span => s.context n span
  | .member target n nameSpan _ => do
    match target.path? with
    | some (first :: more) => s.path first (first :: more ++ [⟨n, nameSpan⟩])
    | _ =>
      let t ← s.elaborate target
      s.member t n nameSpan none
  | .index target position span => do
    let t ← s.elaborate target
    let i ← s.elaborate position
    s.index t i span
  | .call callee args span => do
    match ← s.staticCallee? (callee.path?.getD []) with
    | some (t, m) => s.callStatic t m.name m.span (← s.elaborateAll args) span
    | none =>
      match callee with
      | .name n nameSpan => s.callName n nameSpan (← s.elaborateAll args) span
      | .member target n nameSpan _ =>
        let receiver ← s.elaborate target
        s.callMember receiver n nameSpan (← s.elaborateAll args) span
      | callee =>
        let f ← s.elaborate callee
        callTyped f "expression" (← s.elaborateAll args) span
  | .unary op operand span => do unary op (← s.elaborate operand) span
  | .binary op left right span => do
    let l ← s.elaborate left
    let r ← s.elaborate right
    binary op l r span
  | .choice test yes no _ => do
    let c ← (← s.elaborate test).coerceTo .bool test.span
    let y ← s.elaborate yes
    let n ← s.elaborate no
    choice c y n yes.span no.span
  | .guarded test yes span => do
    let c ← (← s.elaborate test).coerceTo .bool test.span
    let y ← s.elaborate yes
    choice c y (s.const .null) yes.span span

def elaborateAll (s : Setting) : List Expr → Except Diagnostic (List Typed)
  | [] => .ok []
  | e :: es => do
    let t ← s.elaborate e
    let ts ← s.elaborateAll es
    return t :: ts

end

/-- Compiles the expression a text holds; the text starts at `base` of the source. -/
def elaborateText (s : Setting) (text : String) (base : Nat) : Except Diagnostic Typed :=
  match Expr.ofText text base with
  | .ok e => s.elaborate e
  | .error e => .error (.ofReading e)

end Setting

end Stencil
