set_option autoImplicit false

namespace Stencil

inductive BinaryOp where
  | mul | div | rem | add | sub
  | lt | le | gt | ge
  | eq | ne
  | matched
  | unmatched
  | bitAnd | bitXor | bitOr
  | and | or
  /-- The left operand, or the right one where the left is null. -/
  | coalesce
deriving DecidableEq, Repr, Inhabited

inductive UnaryOp where
  | not | neg | plus | bitNot
deriving DecidableEq, Repr, Inhabited

namespace BinaryOp

def all : List BinaryOp :=
  [mul, div, rem, add, sub, lt, le, gt, ge, eq, ne, matched, unmatched, bitAnd, bitXor, bitOr, and, or,
    coalesce]

def symbol : BinaryOp → String
  | mul => "*" | div => "/" | rem => "%" | add => "+" | sub => "-"
  | lt => "<" | le => "<=" | gt => ">" | ge => ">="
  | eq => "==" | ne => "!=" | matched => "=~" | unmatched => "!~"
  | bitAnd => "&" | bitXor => "^" | bitOr => "|"
  | and => "&&" | or => "||" | coalesce => "??"

def isArithmetic : BinaryOp → Bool
  | mul | div | rem | add | sub => true
  | _ => false

def isRelational : BinaryOp → Bool
  | lt | le | gt | ge => true
  | _ => false

def isBitwise : BinaryOp → Bool
  | bitAnd | bitXor | bitOr => true
  | _ => false

/-- Binding strength; a stronger operator binds its operands first. -/
def strength : BinaryOp → Nat
  | coalesce => 10
  | or => 20
  | and => 30
  | bitOr => 40
  | bitXor => 50
  | bitAnd => 60
  | eq | ne | matched | unmatched => 70
  | lt | le | gt | ge => 80
  | add | sub => 90
  | mul | div | rem => 100

/-- Whether `a op b op c` means `a op (b op c)`. -/
def groupsRight : BinaryOp → Bool
  | coalesce => true
  | _ => false

end BinaryOp

namespace UnaryOp

def all : List UnaryOp := [not, neg, plus, bitNot]

def symbol : UnaryOp → String
  | not => "!" | neg => "-" | plus => "+" | bitNot => "~"

end UnaryOp

end Stencil
