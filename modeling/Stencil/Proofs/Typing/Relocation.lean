import Stencil.Proofs.Expr.Rebase
import Stencil.Proofs.Scope.Relocation
import Stencil.Proofs.Typing.Correspondence
/-!
Compiling an expression elsewhere. An expression that compiles in a scope also compiles when it stands further on
in the source and when the slots of the scope are in other places; the code is the same, with its slots there.
-/
set_option autoImplicit false

namespace Stencil

def Typed.relocate (ρ : Nat → Nat) (t : Typed) : Typed := ⟨t.code.relocate ρ, t.kind⟩

def NameRequest.relocate (ρ : Nat → Nat) (j : Nat) (r : NameRequest) : NameRequest :=
  { r with receiver := r.receiver.relocate ρ, span := r.span.shift j }

def Setting.relocate (ρ : Nat → Nat) (s : Setting) : Setting := { s with scope := s.scope.relocate ρ }

/-- Resolvers to which it makes no difference that a name stands further on and that slots are elsewhere. -/
def Setting.Steady (ρ : Nat → Nat) (j : Nat) (s : Setting) : Prop :=
  ∀ f ∈ s.resolvers, ∀ r, Carries (Option.map (Typed.relocate ρ)) (f r) (f (r.relocate ρ j))

variable {ρ : Nat → Nat} {j : Nat} {s : Setting}

theorem Code.eq_relocateAll {cs cs' : List Code} (h : List.Forall₂ (fun c c' => c' = c.relocate ρ) cs cs') :
    cs' = Code.relocateAll ρ cs := by
  induction h with
  | nil => rw [Code.relocateAll]
  | cons hc _ ih => rw [Code.relocateAll, hc, ih]

/-- Code with its slots elsewhere, and names that stand further on. -/
def relocation (ρ : Nat → Nat) (j : Nat) : Correspondence where
  eased := True
  code _ c c' := c' = c.relocate ρ
  passed c c' := c' = c.relocate ρ
  value _ _ := True
  field _ := True
  method _ := True
  fragment f f' := f' = f.relocate ρ
  name n n' := n' = n
  first n n' := n' = n
  place span := span.shift j
  named h := h
  passing := id
  const _ := by rw [Code.relocate]
  ofField _ hc := by rw [Code.relocate, hc]
  property _ hc := by rw [Code.relocate, hc]
  unary _ hc := by rw [Code.relocate, hc]
  binary _ _ ha hb := by rw [Code.relocate, ha, hb]
  both ha hb := by rw [Code.relocate, ha, hb]
  either ha hb := by rw [Code.relocate, ha, hb]
  coalesce ha hb := by rw [Code.relocate, ha, hb]
  choice ht hy hn := by rw [Code.relocate, ht, hy, hn]
  assign _ _ := id
  toBool hc := by rw [Code.relocate, hc]
  toText hc := by rw [Code.relocate, hc]
  convert _ _ hc := by rw [Code.relocate, hc]
  ofMethod _ hc hcs := by rw [Code.relocate, hc, Code.eq_relocateAll hcs]
  callValue hn hc hcs := by rw [Code.relocate, hn.elim id id, hc, Code.eq_relocateAll hcs]
  arity hf := by rw [hf, Fragment.relocate, List.length_map]
  ofFragment hf hcs := by rw [Code.relocate, hf, Code.eq_relocateAll hcs]; rfl

theorem relocation_code {k : Kind} {c c' : Code} : (relocation ρ j).code k c c' ↔ c' = c.relocate ρ := .rfl

theorem Typed.relocated (t : Typed) : (relocation ρ j).Match t (t.relocate ρ) := ⟨rfl, rfl⟩

theorem Correspondence.Match.eq_relocate {t t' : Typed} (h : (relocation ρ j).Match t t') : t' = t.relocate ρ := by
  obtain ⟨code', kind'⟩ := t'
  obtain ⟨rfl, rfl⟩ := h
  rfl

theorem Binding.relocated (b : Binding) (cs : Bool) : (relocation ρ j).Bound cs b (b.relocate ρ) := by
  cases b with
  | slot n k o => exact .slot k o o (relocation_code.2 (by rw [Code.relocate]))
  | «variable» frame n k => exact .ofVariable (relocation_code.2 (by rw [Code.relocate]))
  | fragment f => exact .fragment rfl
  | hidden => exact .hidden

namespace Setting.Steady

theorem takes (w : World) (t : HostType) : (relocation ρ j).Takes w t :=
  ⟨fun _ => trivial, fun _ => trivial, fun _ _ => trivial, fun _ => trivial⟩

theorem asks (hs : s.Steady ρ j) : Asks (relocation ρ j) s (s.relocate ρ) where
  host := rfl
  world := rfl
  caseSensitive := rfl
  resolvers := rfl
  strict := id
  eased _ _ := trivial
  literals _ _ _ _ := trivial
  types _ _ := takes _ _
  elements hc hi _ := relocation_code.2 (by rw [Code.relocate, relocation_code.1 hc, relocation_code.1 hi])
  asked f hf t t' ht n q q' hq span _ := by
    obtain rfl := ht.eq_relocate
    obtain rfl := hq.eq fun _ _ h => h
    refine ((hs f hf (s.request t n q' span)).meets fun _ _ => trivial).imp ?_
    rintro a _ rfl
    exact rel_map Typed.relocated a

theorem members (hs : s.Steady ρ j) : Members (relocation ρ j) s (s.relocate ρ) where
  toAsks := hs.asks
  lateMember _ hc := relocation_code.2 (by rw [Code.relocate, relocation_code.1 hc]; rfl)
  lateCall _ hc hcs := relocation_code.2 (by rw [Code.relocate, relocation_code.1 hc, Code.eq_relocateAll hcs]; rfl)

theorem receiver : (relocation ρ j).Match s.receiver (s.relocate ρ).receiver := by
  refine ⟨?_, relocation_code.2 (by simp [Setting.receiver, Code.relocate])⟩
  simp only [Setting.receiver, relocate, Scope.current_relocate]
  rfl

theorem means (hs : s.Steady ρ j) (n : String) : Means (relocation ρ j) s (s.relocate ρ) n n where
  lookup := by
    have hlookup : (s.relocate ρ).lookup n = (s.lookup n).map (Prod.map id (Binding.relocate ρ)) :=
      s.scope.lookup_relocate s.host s.world s.caseSensitive n
    rw [hlookup]
    exact rel_map (fun x => x.2.relocated _) _
  own hp := hs.asks.resolve receiver .none hp fun _ => hs.members.lateMember n receiver.code

theorem corresponds (hs : s.Steady ρ j) : Corresponds (relocation ρ j) s (s.relocate ρ) := by
  have hstrict : Setting.Steady ρ j { s with strict := true } := hs
  have hheads : Heads (relocation ρ j) s (s.relocate ρ) := by
    refine ⟨rfl, rfl, fun ns p p' hp => ?_, ?_⟩
    · rw [hp.joinPath fun _ _ h => h]
      rfl
    · rintro _ n rfl
      exact hstrict.means n
  refine ⟨hs.members, hheads, fun _ _ _ _ => takes _ _, fun _ _ _ _ _ _ => trivial, ?_, ?_, hheads.staticCallee?, ?_⟩
  · rintro _ n rfl
    exact hs.means n
  · rintro _ n ts ts' rfl hts nameSpan span hn hp
    exact hs.members.callMember receiver hts n hn hp _
  · exact fun _ n => ⟨s.scope.context?_relocate n, fun _ _ => relocation_code.2 (by rw [Code.relocate])⟩

theorem elaborate (hs : s.Steady ρ j) (e : Expr) :
    Carries (Typed.relocate ρ) (s.elaborate e) ((s.relocate ρ).elaborate (e.shift j)) :=
  have hlike := Correspondence.like_shift ⟨fun _ => rfl, fun _ => rfl, trivial⟩ e fun _ _ => rfl
  ((hs.corresponds.elaborate hlike (.any e)).imp fun _ _ h => h.eq_relocate).tracks

end Setting.Steady

end Stencil
