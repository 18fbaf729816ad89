set_option autoImplicit false

namespace Stencil

/-- A range of bytes of the source text; `stop` is the first byte after it. -/
structure Span where
  start : Nat
  stop : Nat
deriving DecidableEq, Repr, Inhabited

namespace Span

def shift (s : Span) (base : Nat) : Span := ⟨s.start + base, s.stop + base⟩

def isEmpty (s : Span) : Bool := s.start == s.stop

def length (s : Span) : Nat := s.stop - s.start

def merge (s t : Span) : Span := ⟨min s.start t.start, max s.stop t.stop⟩

def point (n : Nat) : Span := ⟨n, n⟩

end Span

end Stencil
