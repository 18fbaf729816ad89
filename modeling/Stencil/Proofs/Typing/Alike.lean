import Stencil.Proofs.Typing.Correspondence
set_option autoImplicit false

namespace Stencil

def Likeness.any : Likeness := ⟨fun _ _ _ _ _ => True, True, fun _ => True, fun _ => True, fun _ _ => True⟩

section

variable (l : Likeness) (σ : List SlotUse) (d : Nat)

structure Typed.Alike (t t' : Typed) : Prop where
  kind : t'.kind = t.kind
  code : Code.Alike l σ d t.code t'.code

/-- A resolver that builds its answers on the receiver, and treats alike receivers alike. -/
def Resolver.Blind (f : Resolver) : Prop :=
  ∀ l', l.Within l' → ∀ σ d r t, Typed.Alike l' σ d r.receiver t →
    Tracks (Option.Rel (Typed.Alike l' σ d)) (f r) (f { r with receiver := t })

end

def Setting.under (s : Setting) (scope : Scope) (strict : Bool) : Setting := { s with scope, strict }

/-- A scope and a strictness under which a setting compiles alike. -/
structure Setting.Alike (l : Likeness) (σ : List SlotUse) (s : Setting) (scope : Scope) (strict : Bool) :
    Prop where
  scope : Scope.Alike l σ s.scope scope
  eased : strict = true → s.strict = true
  resolvers : ∀ f ∈ s.resolvers, strict = s.strict ∧ f.Blind l
  types : ∀ k t, s.host.describe s.world k = some t → l.Takes t

variable {l l' : Likeness} {σ : List SlotUse} {d : Nat} {t t' : Typed} {ts ts' : List Typed}

/-- Code that is alike at a place, where the condition holds of the names that dotted paths start with. -/
def Likeness.correspondence (l : Likeness) (σ : List SlotUse) (d : Nat) (first : String → Prop) : Correspondence where
  eased := True
  code _ := Code.Alike l σ d
  passed := Code.Alike l σ d
  value _ _ := True
  field := l.field
  method := l.method
  fragment f f' := Binding.Alike l σ (.fragment f) (.fragment f')
  name n n' := n' = n
  first n n' := n' = n ∧ first n
  place := id
  named := And.left
  passing := id
  const _ := .const _
  ofField := .field
  property _ := .property
  unary _ := .unary
  binary _ _ := .binary
  both := .both
  either := .either
  coalesce := .coalesce
  choice := .choice
  toBool := .toBool
  assign _ _ := id
  toText := .toText
  convert _ _ := .convert
  ofMethod hm hc hcs := .method hm hc (.of_forall₂ hcs)
  callValue hn hc hcs := by
    obtain rfl := hn.elim id id
    exact .callValue hc (.of_forall₂ hcs)
  arity hf := by cases hf; rfl
  ofFragment hf hcs := by
    cases hf with
    | fragment hparams hsnapshot hcompute hemit =>
      exact .fragment hparams hsnapshot hcompute hemit (.of_forall₂ hcs)

variable {first : String → Prop}

theorem Resolver.Blind.mono {f : Resolver} (hl : l.Within l') (h : f.Blind l) : f.Blind l' :=
  fun _ hl' => h _ (hl.trans hl')

theorem Binding.Alike.bound {b b' : Binding} (h : Binding.Alike l σ b b') (cs : Bool) :
    (l.correspondence σ d first).Bound cs b b' := by
  cases h with
  | slot k o hn => exact .slot k o o (.slot hn)
  | ofVariable frame name k => exact .ofVariable (.ofVariable frame name k cs)
  | fragment hparams hsnapshot hcompute hemit => exact .fragment (.fragment hparams hsnapshot hcompute hemit)
  | hidden => exact .hidden

namespace Setting.Alike

variable {s : Setting} {scope : Scope} {strict : Bool}

theorem mono (hl : l.Within l') (hs : Setting.Alike l σ s scope strict) : Setting.Alike l' σ s scope strict :=
  ⟨hs.scope.mono hl, hs.eased, fun f hf => ⟨(hs.resolvers f hf).1, (hs.resolvers f hf).2.mono hl⟩,
    fun k t ht => (hs.types k t ht).mono hl⟩

theorem strictly (hs : Setting.Alike l σ s scope strict) :
    Setting.Alike l σ { s with strict := true } scope true :=
  ⟨hs.scope, fun h => h, fun f hf => ⟨rfl, (hs.resolvers f hf).2⟩, hs.types⟩

theorem takes (hs : Setting.Alike l σ s scope strict) {k : Kind} {t : HostType}
    (ht : s.host.describe s.world k = some t) : (l.correspondence σ d first).Takes s.world t :=
  ⟨(hs.types k t ht).field, fun _ => trivial, (hs.types k t ht).method, fun _ => trivial⟩

theorem asks (hs : Setting.Alike l σ s scope strict) :
    Asks (l.correspondence σ d first) s (s.under scope strict) where
  host := rfl
  world := rfl
  caseSensitive := rfl
  resolvers := rfl
  strict := hs.eased
  eased _ _ := trivial
  literals _ _ _ _ := trivial
  types _ ht := hs.takes ht
  elements hc hi _ := .index hc hi
  asked f hf t t' ht n q q' hq span _ := by
    obtain ⟨hsame, hblind⟩ := hs.resolvers f hf
    obtain rfl : q' = q := hq.eq fun _ _ h => h.1
    have hrequest : (s.under scope strict).request t' n q' span = { s.request t n q' span with receiver := t' } := by
      rw [hsame]; rfl
    have hanswer := hblind l (.refl l) σ d (s.request t n q' span) t' ⟨ht.kind, ht.code⟩
    rw [← hrequest] at hanswer
    exact (hanswer.meets fun _ _ => trivial).imp fun _ _ h => rel_imp h fun _ _ hu => ⟨hu.kind, hu.code⟩

theorem receiver (hs : Setting.Alike l σ s scope strict) :
    (l.correspondence σ s.scope.depth first).Match s.receiver (s.under scope strict).receiver :=
  ⟨hs.scope.current.context, .context (Nat.succ_pos _)⟩

theorem names (hs : Setting.Alike l σ s scope strict) {n : String}
    (hlate : s.receiver.kind.Late → l.late (.context 0) n s.caseSensitive s.strict strict) :
    Means (l.correspondence σ s.scope.depth first) s (s.under scope strict) n n where
  lookup := rel_imp (hs.scope.lookup s.host s.world s.caseSensitive n) fun _ _ h => h.2.bound _
  own hp := hs.asks.resolve hs.receiver .none hp fun hk =>
    .lateMember (hlate hk) (.context (Nat.succ_pos _))

theorem heads (hs : Setting.Alike l σ s scope strict)
    (hfirst : ∀ n, first n → s.receiver.kind.Late → l.late (.context 0) n s.caseSensitive true true) :
    Heads (l.correspondence σ s.scope.depth first) s (s.under scope strict) where
  caseSensitive := rfl
  namespaces := rfl
  types ns p p' hp := by
    rw [hp.joinPath fun _ _ h => h.1]
    rfl
  names := by
    rintro _ n ⟨rfl, hn⟩
    exact hs.strictly.names (hfirst n hn)

theorem corresponds (hs : Setting.Alike l σ s scope strict) (hlate : ∀ c n, l.late c n s.caseSensitive s.strict strict)
    (hfirst : ∀ n, first n → s.receiver.kind.Late → l.late (.context 0) n s.caseSensitive true true) :
    Corresponds (l.correspondence σ s.scope.depth first) s (s.under scope strict) := by
  have hmembers : Members (l.correspondence σ s.scope.depth first) s (s.under scope strict) :=
    ⟨hs.asks, fun _ hc => .lateMember (hlate _ _) hc, fun _ hc hcs => .lateCall (hlate _ _) hc (.of_forall₂ hcs)⟩
  have hany : l.Within .any :=
    ⟨fun _ _ _ _ _ _ => trivial, fun _ => trivial, fun _ _ => trivial, fun _ _ => trivial, fun _ _ _ => trivial⟩
  refine ⟨hmembers, hs.heads hfirst, fun _ id name _ => hs.takes (k := .object (.declared id name)) rfl,
    fun _ _ _ _ _ _ => trivial, ?_, ?_, ?_, ?_⟩
  · rintro n _ rfl
    exact hs.names fun _ => hlate _ _
  · rintro _ n ts ts' rfl hts nameSpan span hn hp
    exact hmembers.callMember hs.receiver hts n hn hp span
  · -- whether a path names a static method does not depend on what its first name is compiled to
    rintro p p' ⟨span, rest, rfl⟩ hb
    have hheads : Heads (Likeness.any.correspondence σ s.scope.depth fun _ => True) s (s.under scope strict) :=
      (hs.mono hany).heads fun _ _ _ => trivial
    exact hheads.staticCallee? (.mk span rest ⟨rfl, trivial⟩) hb
  · refine fun _ n => ⟨hs.scope.context? n, fun k hk => ?_⟩
    obtain ⟨f, hf, -⟩ := Option.map_eq_some_iff.1 hk
    have hn := (List.getElem?_eq_some_iff.1 hf).1
    rw [Scope.frames, List.length_append] at hn
    exact .context hn

theorem elaborate (hs : Setting.Alike l σ s scope strict) (hlate : ∀ c n, l.late c n s.caseSensitive s.strict strict)
    (x : Expr) (hheads : ∀ n ∈ x.heads, s.receiver.kind.Late → l.late (.context 0) n s.caseSensitive true true) :
    Tracks (Typed.Alike l σ s.scope.depth) (s.elaborate x) ((s.under scope strict).elaborate x) := by
  have hx : (l.correspondence σ s.scope.depth (· ∈ x.heads)).Like x x :=
    Correspondence.like_refl ⟨fun _ => rfl, fun _ => rfl, trivial⟩ fun _ hn => ⟨rfl, hn⟩
  exact (((hs.corresponds hlate hheads).elaborate hx (.any x)).imp fun _ _ ht => ⟨ht.kind, ht.code⟩).tracks

end Setting.Alike

end Stencil
