import Stencil.Proofs.Typing.Correspondence
/-!
Faults of expressions. No expression is refused with a fault of the compiler itself, unless a resolver words one,
and what is refused stands at a node of the expression, at a name in it, or reaches from one name to another.
-/
set_option autoImplicit false

namespace Stencil

namespace Diagnostic

def Ordinary (d : Diagnostic) : Prop := d.fault.classify ≠ .internal

theorem ordinary_of {f : Fault} {span : Span} (h : (f.classify == .internal) = false) : (of f span).Ordinary := by
  intro hf
  rw [show f.classify = .internal from hf] at h
  cases h

theorem ordinary_ofReading (e : SyntaxError) : (ofReading e).Ordinary := by
  unfold Ordinary ofReading of Fault.classify
  dsimp only
  split <;> rintro ⟨⟩

def OrdinaryAt (P : Span → Prop) (d : Diagnostic) : Prop := d.Ordinary ∧ P d.span

end Diagnostic

open Diagnostic (Ordinary OrdinaryAt)

section Places

variable {P : Span → Prop} {span : Span}

theorem FailsOnly.refusedAt {α : Type} {f : Fault} (h : (f.classify == .internal) = false) (hp : P span) :
    FailsOnly (OrdinaryAt P) (.error (.of f span) : Except Diagnostic α) :=
  .error ⟨Diagnostic.ordinary_of h, hp⟩

theorem Code.eq_of_forall₂ {cs cs' : List Code} (h : List.Forall₂ (fun c c' => c' = c) cs cs') : cs' = cs := by
  induction h with
  | nil => rfl
  | cons hc _ ih => rw [hc, ih]

/-- Whatever is compiled, what is refused is not a fault of the compiler itself, and is blamed on a place. -/
def blaming (P : Span → Prop) (hmerge : ∀ a b, P a → P b → P (a.merge b)) : Correspondence where
  eased := False
  fault := OrdinaryAt P
  blamed := P
  code _ c c' := c' = c
  passed c c' := c' = c
  value _ _ := True
  field _ := True
  method _ := True
  fragment f f' := f' = f
  name n n' := n' = n
  first n n' := n' = n
  place := id
  named h := h
  merge := hmerge _ _
  refused hf hp := ⟨Diagnostic.ordinary_of hf, hp⟩
  passing := id
  const _ := rfl
  ofField _ h := by rw [h]
  property _ h := by rw [h]
  unary _ h := by rw [h]
  binary _ _ h h' := by rw [h, h']
  both h h' := by rw [h, h']
  either h h' := by rw [h, h']
  coalesce h h' := by rw [h, h']
  choice ht hy hn := by rw [ht, hy, hn]
  assign _ _ := id
  toBool h := by rw [h]
  toText h := by rw [h]
  convert _ _ h := by rw [h]
  ofMethod _ h hs := by rw [h, Code.eq_of_forall₂ hs]
  callValue hn h hs := by rw [hn.elim id id, h, Code.eq_of_forall₂ hs]
  arity h := by rw [h]
  ofFragment h hs := by rw [h, Code.eq_of_forall₂ hs]

namespace Setting

/-- Resolvers that are asked of a place blame nothing but the place, and the condition on places holds of the
least range around two of them. -/
structure Blames (P : Span → Prop) (s : Setting) : Prop where
  resolvers : ∀ f ∈ s.resolvers, ∀ r, P r.span → FailsOnly (OrdinaryAt P) (f r)
  merge : ∀ a b, P a → P b → P (a.merge b)

namespace Blames

variable {s : Setting}

theorem takes (hs : s.Blames P) (w : World) (t : HostType) : (blaming P hs.merge).Takes w t :=
  ⟨fun _ => trivial, fun _ => trivial, fun _ _ => trivial, fun _ => trivial⟩

theorem members (hs : s.Blames P) : Members (blaming P hs.merge) s s where
  host := rfl
  world := rfl
  caseSensitive := rfl
  resolvers := rfl
  strict := id
  eased h h' := not_eased s.strict ⟨h, h'⟩
  literals _ _ _ _ := trivial
  types _ _ := hs.takes _ _
  elements h h' _ := by cases h; cases h'; rfl
  asked f hf t t' ht n q q' hq span hp := by
    obtain rfl := hq.eq fun _ _ h => h
    obtain ⟨code, kind⟩ := t'
    obtain ⟨rfl, rfl⟩ : kind = t.kind ∧ code = t.code := ⟨ht.kind, ht.code⟩
    exact (hs.resolvers f hf (s.request t n q' span) hp).meets fun a => by
      cases a with
      | none => exact .none
      | some t => exact .some ⟨rfl, rfl⟩
  lateMember _ h := by cases h; rfl
  lateCall _ h hs := by cases h; cases Code.eq_of_forall₂ hs; rfl

theorem upholds (hs : s.Blames P) : Upholds (blaming P hs.merge) s where
  members strict := members (s := { s with strict }) ⟨hs.resolvers, hs.merge⟩
  statics _ _ _ _ := hs.takes _ _
  variants _ _ _ _ _ _ := trivial
  lookup {n i b} _ := by
    cases b with
    | slot n k o => exact .slot k o o rfl
    | «variable» frame n k => exact .ofVariable rfl
    | fragment f => exact .fragment rfl
    | hidden => exact .hidden
  context _ := rfl

theorem elaborate (hs : s.Blames P) (x : Expr) (hx : x.Within P) : FailsOnly (OrdinaryAt P) (s.elaborate x) :=
  (hs.upholds.elaborate ⟨⟨fun _ => rfl, fun _ => rfl, trivial⟩, id, fun _ => rfl⟩ hx).failsOnly

end Blames

end Setting

end Places

/-! ### Whatever the place -/

namespace Setting

def Blameless (s : Setting) : Prop := ∀ f ∈ s.resolvers, ∀ r, FailsOnly Ordinary (f r)

theorem Blameless.elaborate {s : Setting} (hs : s.Blameless) (x : Expr) : FailsOnly Ordinary (s.elaborate x) := by
  have hany : s.Blames fun _ => True :=
    ⟨fun f hf r _ d hd => ⟨hs f hf r d hd, trivial⟩, fun _ _ _ _ => trivial⟩
  exact fun d hd => (hany.elaborate x (.any x) d hd).1

end Setting

end Stencil
