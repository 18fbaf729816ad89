import Stencil.Pattern.Property
/-!
Patterns as they are once their flags and names are settled. Only the existence of a match is ever asked
for, so greed makes no difference.
-/
set_option autoImplicit false

namespace Stencil

/-- A gap in a text, by the characters at its sides; at the ends of the text one of them is missing. -/
structure Gap where
  before : Option Char
  after : Option Char
deriving DecidableEq, Repr, Inhabited

/-- Conditions on a gap. A word condition counts ASCII words only unless it is `wide`. -/
inductive Anchor where
  | textStart
  | textEnd
  /-- After a line end; with `pairs`, a carriage return is a line end too. -/
  | lineStart (pairs : Bool)
  | lineEnd (pairs : Bool)
  | wordEdge (wide : Bool)
  | wordInside (wide : Bool)
  | wordStart (wide : Bool)
  | wordEnd (wide : Bool)
  | wordStartHalf (wide : Bool)
  | wordEndHalf (wide : Bool)
deriving DecidableEq, Repr, Inhabited

namespace Anchor

def isWordChar (wide : Bool) (c : Option Char) : Bool :=
  c.any fun c => if wide then CharSet.wordChars.has c else CharSet.narrowWordChars.has c

def holds (g : Gap) : Anchor → Bool
  | textStart => g.before.isNone
  | textEnd => g.after.isNone
  | lineStart false => g.before.isNone || g.before == some '\n'
  | lineStart true =>
    g.before.isNone || g.before == some '\n' || (g.before == some '\r' && g.after != some '\n')
  | lineEnd false => g.after.isNone || g.after == some '\n'
  | lineEnd true =>
    g.after.isNone || g.after == some '\r' || (g.after == some '\n' && g.before != some '\r')
  | wordEdge w => isWordChar w g.before != isWordChar w g.after
  | wordInside w => isWordChar w g.before == isWordChar w g.after
  | wordStart w => !isWordChar w g.before && isWordChar w g.after
  | wordEnd w => isWordChar w g.before && !isWordChar w g.after
  | wordStartHalf w => !isWordChar w g.before
  | wordEndHalf w => !isWordChar w g.after

end Anchor

inductive Pattern where
  | empty
  | one (s : CharSet)
  | anchor (a : Anchor)
  | seq (p q : Pattern)
  | alt (p q : Pattern)
  /-- At least `least` times, and at most `most` times when there is a bound. -/
  | times (p : Pattern) (least : Nat) (most : Option Nat)
  | group (p : Pattern)
deriving Repr, Inhabited

namespace Pattern

def isBlank : Pattern → Bool
  | empty | anchor _ => true
  | one _ => false
  | seq p q | alt p q => p.isBlank && q.isBlank
  | times p _ _ | group p => p.isBlank

def isNullable : Pattern → Bool
  | empty | anchor _ => true
  | one _ => false
  | seq p q => p.isNullable && q.isNullable
  | alt p q => p.isNullable || q.isNullable
  | times p least _ => least == 0 || p.isNullable
  | group p => p.isNullable

def andThen : Pattern → Pattern → Pattern
  | empty, q => q
  | p, empty => p
  | p, q => seq p q

def orElse : Pattern → Pattern → Pattern
  | one s, one t => one (s.union t)
  | p, q => alt p q

/-- A repetition. Once is no repetition, and more than one round of what is empty adds nothing. -/
def repeated (p : Pattern) (least : Nat) (most : Option Nat) : Pattern :=
  let (least, most) := if p.isBlank then (min least 1, some (min (most.getD 1) 1)) else (least, most)
  match least, most with
  | 0, some 0 => empty
  | 1, some 1 => p
  | least, most => times p least most

end Pattern

end Stencil
