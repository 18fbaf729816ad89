import Stencil.Numeric.Format
set_option autoImplicit false

namespace Stencil

structure Options where
  strict : Bool
  caseSensitive : Bool
  /-- Whether predicates take an unresolved name as empty even when names must resolve. -/
  lenientPredicates : Bool
  impliedNamespaces : List String
  numberFormat : NumberFormat
  maxPasses : Nat
deriving DecidableEq, Repr

namespace Options

def passLimit : Nat := 1000

def default : Options := ⟨false, true, true, [], .invariant, passLimit⟩

instance : Inhabited Options := ⟨default⟩

def passes (o : Options) : Nat := max 1 (min o.maxPasses passLimit)

end Options

end Stencil
