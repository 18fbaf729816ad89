import Stencil.Kind.Basic
import Stencil.Operator.Symbol
set_option autoImplicit false

namespace Stencil

inductive Misapplied where
  | binary (op : BinaryOp) (left right : Kind)
  | unary (op : UnaryOp) (operand : Kind)
deriving Repr, Inhabited

def Misapplied.message : Misapplied → String
  | binary op l r =>
    "operator '" ++ op.symbol ++ "' cannot be applied to '" ++ l.display ++ "' and '" ++ r.display ++ "'"
  | unary op k => "operator '" ++ op.symbol ++ "' cannot be applied to '" ++ k.display ++ "'"

/-- The kind of either of two values: that of the other when one is null, their own when it is the same,
the kind in which two numbers meet, and any kind otherwise. -/
def Kind.meet (l r : Kind) : Kind :=
  match l, r with
  | .null, k => k
  | k, .null => k
  | l, r => if l == r then l else (l.promote r).getD .any

namespace BinaryOp

def comparable (l r : Kind) : Bool :=
  l.isNull || r.isNull || (l.promote r).isSome ||
    (match l, r with
      | .text, .text | .bool, .bool => true
      | _, _ => false)

def takesNumber : Kind → Bool
  | .enum _ | .int _ | .float _ => true
  | _ => false

def kind (op : BinaryOp) (l r : Kind) : Except Misapplied Kind :=
  let refused : Except Misapplied Kind := .error (.binary op l r)
  match op with
  | eq | ne | and | or => .ok .bool
  | matched | unmatched =>
    match r with
    | .pattern | .text | .any | .null => .ok .bool
    | _ => refused
  | coalesce => .ok (l.meet r)
  | lt | le | gt | ge =>
    if l.isAny || r.isAny then .ok .bool
    else if comparable l r then .ok .bool else refused
  | mul | div | rem | add | sub =>
    match op, l, r with
    | add, .text, _ => .ok .text
    | add, _, .text => .ok .text
    | _, l, r =>
      if l.isAny || r.isAny || l.isNull || r.isNull then .ok .any
      else if takesNumber l && takesNumber r then
        match l.promote r with
        | some k => .ok k
        | none => refused
      else refused
  | bitAnd | bitXor | bitOr =>
    if l.isAny || r.isAny then .ok .any
    else match l, r with
      | .bool, .bool => .ok .bool
      | .enum a, .enum b =>
        if a.name.full == b.name.full then .ok (.enum a)
        else .ok (.int (a.underlying.promote b.underlying))
      | l, r =>
        match l.integral?, r.integral? with
        | some a, some b => .ok (.int (a.promote b))
        | _, _ => refused

end BinaryOp

namespace UnaryOp

def kind (op : UnaryOp) (k : Kind) : Except Misapplied Kind :=
  match op, k with
  | not, _ => .ok .bool
  | _, .any => .ok .any
  | _, .null => .ok .any
  | neg, .float f => .ok (.float f)
  | plus, .float f => .ok (.float f)
  | bitNot, .enum t => .ok (.enum t)
  | op, k =>
    match k.integral? with
    | some i => .ok (.int (if op = neg then i.negated else i))
    | none => .error (.unary op k)

end UnaryOp

end Stencil
