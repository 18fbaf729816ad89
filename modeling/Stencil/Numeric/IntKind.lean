/-!
Integer kinds. An integer value is kept as an exact integer beside its kind, and operations bring their
result back into the kind by wrapping it modulo a power of two.
-/
set_option autoImplicit false

namespace Stencil

inductive IntKind where
  | i8 | i16 | i32 | i64 | i128
  | u8 | u16 | u32 | u64
deriving DecidableEq, Repr, Inhabited

namespace IntKind

def all : List IntKind := [i8, i16, i32, i64, i128, u8, u16, u32, u64]

def bits : IntKind → Nat
  | i8 | u8 => 8
  | i16 | u16 => 16
  | i32 | u32 => 32
  | i64 | u64 => 64
  | i128 => 128

def isSigned : IntKind → Bool
  | i8 | i16 | i32 | i64 | i128 => true
  | u8 | u16 | u32 | u64 => false

def name : IntKind → String
  | i8 => "i8" | i16 => "i16" | i32 => "i32" | i64 => "i64" | i128 => "i128"
  | u8 => "u8" | u16 => "u16" | u32 => "u32" | u64 => "u64"

def modulus (k : IntKind) : Nat := Nat.pow 2 k.bits

def minValue (k : IntKind) : Int := if k.isSigned then -(k.modulus / 2) else 0

def maxValue (k : IntKind) : Int := if k.isSigned then k.modulus / 2 - 1 else k.modulus - 1

def contains (k : IntKind) (v : Int) : Bool := k.minValue ≤ v && v ≤ k.maxValue

/-- Cuts an integer of 128 bits down to the bits of the kind. A signed kind takes the topmost of them for the sign. -/
def wrap (k : IntKind) (v : Int) : Int :=
  let v := BitVec.ofInt 128 v
  if k.bits = 128 then v.toInt
  else
    let mask := (1#128 <<< k.bits) - 1
    let low := v &&& mask
    if k.isSigned && (low.sshiftRight (k.bits - 1) &&& 1) == 1 then (low - (1#128 <<< k.bits)).toInt
    else low.toInt

def widened (k : IntKind) : IntKind :=
  match k.bits with
  | 8 => i16
  | 16 => i32
  | 32 => i64
  | _ => i128

/-- Common kind of two integer operands: the wider one, and for two kinds of one width and different
signedness the signed kind of twice the width. -/
def promote (a b : IntKind) : IntKind :=
  if a = b then a
  else if b.bits < a.bits then a
  else if a.bits < b.bits then b
  else a.widened

def negated (k : IntKind) : IntKind := if k.isSigned then k else k.widened

def within (a b : IntKind) : Bool := b.minValue ≤ a.minValue && a.maxValue ≤ b.maxValue

end IntKind

end Stencil
