import Stencil.Span
import Stencil.Numeric.IntKind
import Stencil.Numeric.FloatKind
import Stencil.Operator.Symbol
set_option autoImplicit false

namespace Stencil

inductive Literal where
  | null
  | bool (b : Bool)
  | int (value : Int) (kind : IntKind)
  | float (value : Float) (kind : FloatKind)
  | text (value : String)
  | pattern (body flags : String)
deriving Repr, Inhabited

inductive Expr where
  | literal (value : Literal) (span : Span)
  | name (value : String) (span : Span)
  | context (n : Nat) (span : Span)
  | member (target : Expr) (name : String) (nameSpan : Span) (span : Span)
  | index (target position : Expr) (span : Span)
  | call (callee : Expr) (args : List Expr) (span : Span)
  | unary (op : UnaryOp) (operand : Expr) (span : Span)
  | binary (op : BinaryOp) (left right : Expr) (span : Span)
  | choice (test yes no : Expr) (span : Span)
  | guarded (test yes : Expr) (span : Span)
deriving Repr, Inhabited

namespace Expr

def span : Expr → Span
  | literal _ s | name _ s | context _ s | member _ _ _ s | index _ _ s | call _ _ s | unary _ _ s
  | binary _ _ _ s | choice _ _ _ s | guarded _ _ s => s

def withSpan (s : Span) : Expr → Expr
  | literal v _ => literal v s
  | name n _ => name n s
  | context n _ => context n s
  | member t n ns _ => member t n ns s
  | index t i _ => index t i s
  | call c as _ => call c as s
  | unary op e _ => unary op e s
  | binary op l r _ => binary op l r s
  | choice c t e _ => choice c t e s
  | guarded c t _ => guarded c t s

@[simp]
theorem span_withSpan (s : Span) (e : Expr) : (e.withSpan s).span = s := by
  cases e <;> rfl

structure Segment where
  name : String
  span : Span
deriving DecidableEq, Repr, Inhabited

def path? : Expr → Option (List Segment)
  | name n s => some [⟨n, s⟩]
  | member t n ns _ => (t.path?).map (· ++ [⟨n, ns⟩])
  | _ => none

def isNull : Expr → Bool
  | literal .null _ => true
  | _ => false

end Expr

end Stencil
