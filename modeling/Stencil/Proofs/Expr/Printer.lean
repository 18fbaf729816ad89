import Stencil.Expr.Parser
set_option autoImplicit false

namespace Stencil

def BinaryOp.level : BinaryOp → Nat
  | coalesce => 10
  | or => 20
  | and => 30
  | bitOr => 40
  | bitXor => 50
  | bitAnd => 60
  | eq | ne | matched | unmatched => 70
  | lt | le | gt | ge => 80
  | add | sub => 90
  | mul | div | rem => 100

/-- The level an operand before the operator has at least. Coalescing groups to the right, all other
operators to the left. -/
def BinaryOp.leftLevel (op : BinaryOp) : Nat := if op = coalesce then op.level + 1 else op.level

def BinaryOp.rightLevel (op : BinaryOp) : Nat := if op = coalesce then op.level else op.level + 1

def Token.Denotes (t : Token) (l : Literal) : Prop :=
  ∀ span, Expr.ofToken? ⟨t, span⟩ = some (.ok (.literal l span))

/-- How literals and operators are written. An operator may have several symbols, and a literal several
tokens. -/
structure Spelling where
  literal : Literal → Token
  binary : BinaryOp → Symbol
  unary : UnaryOp → Symbol
  literal_reads : ∀ l, (∃ t : Token, t.Denotes l) → (literal l).Denotes l
  binary_reads : ∀ op, Expr.binaryOp? (binary op) = some op
  unary_reads : ∀ op, Expr.unaryOp? (unary op) = some op

namespace Expr

def level : Expr → Nat
  | choice _ _ _ _ | guarded _ _ _ => 0
  | binary op _ _ _ => op.level
  | unary _ _ _ => 110
  | literal _ _ | name _ _ | context _ _ | member _ _ _ _ | index _ _ _ | call _ _ _ => 120

def enclosed (required level : Nat) (ts : List Token) : List Token :=
  if level < required then [.fixed .lParen] ++ ts ++ [.fixed .rParen] else ts

mutual

@[simp] def print (sp : Spelling) : Expr → List Token
  | literal l _ => [sp.literal l]
  | name n _ => [.name n]
  | context n _ => [.context n]
  | member t n _ _ => enclosed 120 t.level (print sp t) ++ [.fixed .dot, .name n]
  | index t i _ => enclosed 120 t.level (print sp t) ++ [.fixed .lBracket] ++ print sp i ++ [.fixed .rBracket]
  | call c args _ =>
    enclosed 120 c.level (print sp c) ++ [.fixed .lParen] ++ printArgs sp args ++ [.fixed .rParen]
  | unary op e _ => [.fixed (sp.unary op)] ++ enclosed 110 e.level (print sp e)
  | binary op l r _ =>
    enclosed op.leftLevel l.level (print sp l) ++ [.fixed (sp.binary op)] ++
      enclosed op.rightLevel r.level (print sp r)
  | choice c t e _ =>
    enclosed 10 c.level (print sp c) ++ [.fixed .question] ++ print sp t ++ [.fixed .colon] ++ print sp e
  | guarded c t _ => [.fixed .ifWord] ++ enclosed 10 c.level (print sp c) ++ print sp t

@[simp] def printArgs (sp : Spelling) : List Expr → List Token
  | [] => []
  | [e] => print sp e
  | e :: f :: es => print sp e ++ [.fixed .comma] ++ printArgs sp (f :: es)

end

mutual

@[simp] def plain : Expr → Expr
  | literal l _ => literal l default
  | name n _ => name n default
  | context n _ => context n default
  | member t n _ _ => member t.plain n default default
  | index t i _ => index t.plain i.plain default
  | call c args _ => call c.plain (plainAll args) default
  | unary op e _ => unary op e.plain default
  | binary op l r _ => binary op l.plain r.plain default
  | choice c t e _ => choice c.plain t.plain e.plain default
  | guarded c t _ => guarded c.plain t.plain default

@[simp] def plainAll : List Expr → List Expr
  | [] => []
  | e :: es => e.plain :: plainAll es

end

@[simp] theorem plain_withSpan (s : Span) (e : Expr) : (e.withSpan s).plain = e.plain := by
  cases e <;> rfl

mutual

/-- Every literal is that of a token, and no conditional lacks its second branch. -/
@[simp] def Printable : Expr → Prop
  | literal l _ => ∃ t : Token, t.Denotes l
  | name _ _ | context _ _ => True
  | member t _ _ _ => t.Printable
  | index t i _ => t.Printable ∧ i.Printable
  | call c args _ => c.Printable ∧ AllPrintable args
  | unary _ e _ => e.Printable
  | binary _ l r _ => l.Printable ∧ r.Printable
  | choice c t e _ => c.Printable ∧ t.Printable ∧ e.Printable
  | guarded _ _ _ => False

@[simp] def AllPrintable : List Expr → Prop
  | [] => True
  | e :: es => e.Printable ∧ AllPrintable es

end

end Expr

/-- The suffix of the integer literals whose kind comes first in it. -/
def IntKind.suffix : IntKind → IntSuffix
  | i64 => .long
  | u32 => .unsigned
  | u64 => .unsignedLong
  | _ => .none

theorem Expr.integerLiteral?_suffix {n : Nat} {s : IntSuffix} {v : Int} {k : IntKind}
    (h : integerLiteral? n s = some (.int v k)) : integerLiteral? v.toNat k.suffix = some (.int v k) := by
  unfold integerLiteral? at h
  obtain ⟨hwide, h⟩ := Option.ite_none_right_eq_some.1 h
  obtain ⟨k', hk, heq⟩ := Option.map_eq_some_iff.1 h
  obtain ⟨rfl, rfl⟩ := Literal.int.inj heq
  have hmem := List.mem_of_find?_eq_some hk
  have hcontains := List.find?_some hk
  have hfirst : (literalKinds k'.suffix).head? = some k' := by
    cases s <;> simp only [literalKinds, List.mem_cons, List.not_mem_nil, or_false] at hmem <;>
      rcases hmem with rfl | rfl | rfl <;> rfl
  obtain ⟨ks, hks⟩ := List.head?_eq_some_iff.1 hfirst
  simp only [integerLiteral?, hks, List.find?_cons, Int.toNat_natCast, hwide, hcontains, if_true, Option.map_some]

namespace Spelling

open Classical in
/-- A token for every literal. Rounding to single precision has no law to invert it by, so a token for such
a literal is chosen among those that denote it. -/
noncomputable def literalToken : Literal → Token
  | .null => .fixed .nullWord
  | .bool b => .fixed (if b then .trueWord else .falseWord)
  | .int v k => .integer v.toNat k.suffix
  | .float v .f64 => .real v .double
  | .float v .f32 => epsilon fun t => t.Denotes (.float v .f32)
  | .text v => .text v
  | .pattern body flags => .pattern body flags

theorem literalToken_denotes (l : Literal) (h : ∃ t : Token, t.Denotes l) : (literalToken l).Denotes l := by
  match l with
  | .null | .text _ | .pattern _ _ => exact fun _ => rfl
  | .bool b => cases b <;> exact fun _ => rfl
  | .float v .f64 => exact fun _ => rfl
  | .float v .f32 => exact Classical.epsilon_spec h
  | .int v k =>
    obtain ⟨t, ht⟩ := h
    intro span
    have hs := ht span
    cases t with
    | integer n s =>
      simp only [Expr.ofToken?] at hs
      cases hi : Expr.integerLiteral? n s with
      | none => rw [hi] at hs; cases hs
      | some l' =>
        rw [hi] at hs
        obtain rfl : l' = .int v k := by simpa using hs
        simp only [literalToken, Expr.ofToken?, Expr.integerLiteral?_suffix hi]
    | fixed s => cases s <;> cases hs
    | real v s => simp [Expr.ofToken?, Expr.realLiteral] at hs
    | _ => cases hs

noncomputable def standard : Spelling where
  literal := literalToken
  binary
    | .coalesce => .coalesce | .or => .pipePipe | .and => .ampAmp | .bitOr => .pipe | .bitXor => .caret
    | .bitAnd => .amp | .eq => .eqEq | .ne => .bangEq | .matched => .matched | .unmatched => .unmatched
    | .lt => .lt | .le => .ltEq | .gt => .gt | .ge => .gtEq | .add => .plus | .sub => .minus | .mul => .star
    | .div => .slash | .rem => .percent
  unary
    | .neg => .minus | .plus => .plus | .not => .bang | .bitNot => .tilde
  literal_reads := literalToken_denotes
  binary_reads op := by cases op <;> rfl
  unary_reads op := by cases op <;> rfl

end Spelling

end Stencil
