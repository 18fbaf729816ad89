import Stencil.Failure
import Stencil.Operator.Symbol
import Stencil.Value.Compare
set_option autoImplicit false

namespace Stencil

namespace BinaryOp

/-- Whether a text has a match of a pattern; a text on the right is read as a pattern. -/
def isMatch (w : World) (l r : Value) : Except Failure Bool :=
  match r with
  | .pattern re => .ok (re.pattern.isMatch (l.display w))
  | .text source => do return (← Regex.ofText source "").pattern.isMatch (l.display w)
  | .null => .ok false
  | r => .error (.mismatch "regex" (r.kind w).display)

def satisfies : BinaryOp → Ordering → Bool
  | lt, o => o == .lt
  | le, o => o != .gt
  | gt, o => o == .gt
  | _, o => o != .lt

def relational (op : BinaryOp) (w : World) (l r : Value) : Except Failure Value :=
  match l.order? r with
  | some o => .ok (.bool (op.satisfies o))
  | none =>
    if l.isNull || r.isNull then .ok (.bool false)
    else .error (.mismatch (l.kind w).display (r.kind w).display)

def onInts (op : BinaryOp) (a b : Int) (k : IntKind) : Except Failure Value :=
  let a := BitVec.ofInt 128 a
  let b := BitVec.ofInt 128 b
  match op with
  | add => .ok (.wrapped (a + b).toInt k)
  | sub => .ok (.wrapped (a - b).toInt k)
  | mul => .ok (.wrapped (a * b).toInt k)
  | div => if b = 0 then .error .divisionByZero else .ok (.wrapped (a.sdiv b).toInt k)
  | _ => if b = 0 then .error .divisionByZero else .ok (.wrapped (a.srem b).toInt k)

def onFloats (op : BinaryOp) (a b : Float) (k : FloatKind) : Value :=
  let a := k.round a
  let b := k.round b
  match op with
  | add => .rounded (a + b) k
  | sub => .rounded (a - b) k
  | mul => .rounded (a * b) k
  | div => .rounded (a / b) k
  | _ => .rounded (floatRemainder a b) k

def arithmetic (op : BinaryOp) (w : World) (l r : Value) : Except Failure Value :=
  let mismatch : Except Failure Value := .error (.mismatch (l.kind w).display (r.kind w).display)
  if l.isNull || r.isNull then .ok .null
  else match (l.kind w).promote (r.kind w) with
    | some (.int k) =>
      match l.toInt?, r.toInt? with
      | some a, some b => op.onInts a b k
      | _, _ => mismatch
    | some (.float k) =>
      match l.toFloat?, r.toFloat? with
      | some a, some b => .ok (op.onFloats a b k)
      | _, _ => mismatch
    | _ => mismatch

def onBits (op : BinaryOp) (a b : Int) : Int :=
  let a := BitVec.ofInt 128 a
  let b := BitVec.ofInt 128 b
  match op with
  | bitAnd => (a &&& b).toInt
  | bitXor => (a ^^^ b).toInt
  | _ => (a ||| b).toInt

def onBools (op : BinaryOp) (a b : Bool) : Bool :=
  match op with
  | bitAnd => a && b
  | bitXor => a != b
  | _ => a || b

def bitwise (op : BinaryOp) (w : World) (l r : Value) : Except Failure Value :=
  match l, r with
  | .bool a, .bool b => .ok (.bool (op.onBools a b))
  | .enum s a, .enum t b =>
    if s.name.full == t.name.full then .ok (.enum s (s.underlying.wrap (op.onBits a b)))
    else .ok (.wrapped (op.onBits a b) (s.underlying.promote t.underlying))
  | l, r =>
    match (l.kind w).integral?, l.toInt?, (r.kind w).integral?, r.toInt? with
    | some j, some a, some k, some b => .ok (.wrapped (op.onBits a b) (j.promote k))
    | _, _, _, _ => .error (.mismatch "integral" ((l.kind w).display ++ " and " ++ (r.kind w).display))

def apply (op : BinaryOp) (w : World) (l r : Value) : Except Failure Value :=
  match op with
  | eq => .ok (.bool (l.equals w r))
  | ne => .ok (.bool (!l.equals w r))
  | and => .ok (.bool (l.truth && r.truth))
  | or => .ok (.bool (l.truth || r.truth))
  | coalesce => .ok (if l.isNull then r else l)
  | matched => (isMatch w l r).map .bool
  | unmatched => (isMatch w l r).map fun b => .bool (!b)
  | lt | le | gt | ge => op.relational w l r
  | mul | div | rem | add | sub =>
    match op, l, r with
    | add, .text a, r => .ok (.text (a ++ r.display w))
    | add, l, .text b => .ok (.text (l.display w ++ b))
    | op, l, r => op.arithmetic w l r
  | bitAnd | bitXor | bitOr => op.bitwise w l r

end BinaryOp

namespace UnaryOp

def onInt (op : UnaryOp) (n : Int) (k : IntKind) : Value :=
  match op with
  | neg => .wrapped (-BitVec.ofInt 128 n).toInt k.negated
  | bitNot => .wrapped (~~~BitVec.ofInt 128 n).toInt k
  | _ => .int n k

def apply (op : UnaryOp) (w : World) (v : Value) : Except Failure Value :=
  match op, v with
  | not, v => .ok (.bool (!v.truth))
  | _, .null => .ok .null
  | neg, .float x k => .ok (.float (-x) k)
  | plus, .float x k => .ok (.float x k)
  | bitNot, .enum t n => .ok (.enum t (t.underlying.wrap (~~~BitVec.ofInt 128 n).toInt))
  | op, v =>
    match (v.kind w).integral?, v.toInt? with
    | some k, some n => .ok (op.onInt n k)
    | _, _ => .error (.mismatch "numeric" (v.kind w).display)

end UnaryOp

end Stencil
