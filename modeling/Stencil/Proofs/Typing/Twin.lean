import Stencil.Proofs.Code.Twin
import Stencil.Proofs.Typing.Correspondence
set_option autoImplicit false

namespace Stencil

section

variable (k : Stock)

inductive PathTwin (cs : Bool) : List Expr.Segment → List Expr.Segment → Prop
  | mk {first first' : String} (span : Span) (rest : List Expr.Segment) : k.same cs first first' →
    PathTwin cs (⟨first, span⟩ :: rest) (⟨first', span⟩ :: rest)

mutual

inductive Expr.Twin (cs : Bool) : Expr → Expr → Prop
  | literal (l : Literal) (span : Span) : Expr.Twin cs (.literal l span) (.literal l span)
  | name {n n' : String} (span : Span) : k.same cs n n' → Expr.Twin cs (.name n span) (.name n' span)
  | context (n : Nat) (span : Span) : k.contexts → Expr.Twin cs (.context n span) (.context n span)
  | member {x x' : Expr} (n : String) (nameSpan span : Span) :
    Expr.Twin cs x x' → Expr.Twin cs (.member x n nameSpan span) (.member x' n nameSpan span)
  | index {x x' i i' : Expr} (span : Span) :
    Expr.Twin cs x x' → Expr.Twin cs i i' → Expr.Twin cs (.index x i span) (.index x' i' span)
  | call {x x' : Expr} {args args' : List Expr} (span : Span) :
    Expr.Twin cs x x' → Expr.TwinAll cs args args' → Expr.Twin cs (.call x args span) (.call x' args' span)
  | unary (op : UnaryOp) {x x' : Expr} (span : Span) :
    Expr.Twin cs x x' → Expr.Twin cs (.unary op x span) (.unary op x' span)
  | binary (op : BinaryOp) {x x' y y' : Expr} (span : Span) :
    Expr.Twin cs x x' → Expr.Twin cs y y' → Expr.Twin cs (.binary op x y span) (.binary op x' y' span)
  | choice {x x' y y' z z' : Expr} (span : Span) : Expr.Twin cs x x' → Expr.Twin cs y y' → Expr.Twin cs z z' →
    Expr.Twin cs (.choice x y z span) (.choice x' y' z' span)
  | guarded {x x' y y' : Expr} (span : Span) :
    Expr.Twin cs x x' → Expr.Twin cs y y' → Expr.Twin cs (.guarded x y span) (.guarded x' y' span)

inductive Expr.TwinAll (cs : Bool) : List Expr → List Expr → Prop
  | nil : Expr.TwinAll cs [] []
  | cons {x x' : Expr} {xs xs' : List Expr} :
    Expr.Twin cs x x' → Expr.TwinAll cs xs xs' → Expr.TwinAll cs (x :: xs) (x' :: xs')

end

inductive Binding.Twin (cs : Bool) : Binding → Binding → Prop
  | slot (n : Nat) (kind : Kind) (o : Origin) : Binding.Twin cs (.slot n kind o) (.slot n kind o)
  | ofVariable (frame : Nat) {name name' : String} (kind : Kind) : k.same cs name name' →
    Binding.Twin cs (.variable frame name kind) (.variable frame name' kind)
  | fragment {f : Fragment} {compute emit : Body} :
    k.steps → Step.TwinAll k f.compute compute → Step.TwinAll k f.emit emit →
    Binding.Twin cs (.fragment f) (.fragment { f with compute, emit })
  | hidden : Binding.Twin cs .hidden .hidden

structure NameRequest.Twin (r r' : NameRequest) : Prop where
  receiver : Typed.Twin k r.receiver r'.receiver
  name : r'.name = r.name
  qualifier : Option.Rel (fun q q' => ∃ p p', PathTwin k r.caseSensitive p p' ∧ q = Setting.joinPath p ∧
    q' = Setting.joinPath p') r.qualifier r'.qualifier
  span : r'.span = r.span
  caseSensitive : r'.caseSensitive = r.caseSensitive
  strict : r'.strict = r.strict

structure Stock.Takes (t : HostType) : Prop where
  field : ∀ {cs name f}, t.field? cs name = some f → k.field f
  static : ∀ {cs name m}, t.static? cs name = some m → k.value m.value
  method : ∀ m ∈ t.methods, k.method m

structure Setting.Stocked (s : Setting) : Prop where
  literals : ∀ (l : Literal) (span : Span), Ensures k.value (l.value span)
  types : ∀ kind t, s.host.describe s.world kind = some t → k.Takes t
  variants : ∀ n e name v, (n, .enum e) ∈ s.types.entries → e.variant? s.caseSensitive name = some v →
    k.value (.enum e v)
  resolvers : ∀ f ∈ s.resolvers, ∀ r r', NameRequest.Twin k r r' →
    Paired (Option.Rel (Typed.Twin k)) (f r) (f r')

end

def Setting.inScope (s : Setting) (scope : Scope) : Setting := { s with scope }

variable {k : Stock} {s : Setting} {scope : Scope} {t t' : Typed} {ts ts' : List Typed}

theorem Typed.Twin.eq (hk : k.Exact) (h : Typed.Twin k t t') : t' = t := by
  obtain ⟨code, kind⟩ := t
  obtain ⟨code', kind'⟩ := t'
  obtain rfl : kind' = kind := h.kind
  obtain rfl : code' = code := h.code.eq hk
  rfl

/-- Where every variable has one spelling only, twin questions are one. -/
theorem NameRequest.Twin.eq (hk : k.Exact) {r r' : NameRequest} (h : NameRequest.Twin k r r') : r' = r := by
  have hreceiver := h.receiver.eq hk
  have hqualifier : r'.qualifier = r.qualifier := by
    obtain ⟨_, _, hq, hq', p, p', ⟨span, rest, hfirst⟩, rfl, rfl⟩ | ⟨hq, hq'⟩ := rel_cases h.qualifier
    · rw [hq, hq', hk _ _ _ hfirst]
    · rw [hq, hq']
  obtain ⟨receiver, name, qualifier, span, caseSensitive, strict⟩ := r
  obtain ⟨-, rfl, -, rfl, rfl, rfl⟩ := h
  obtain rfl : _ = receiver := hreceiver
  obtain rfl : _ = qualifier := hqualifier
  rfl

theorem PathTwin.append {cs : Bool} {p p' : List Expr.Segment} (h : PathTwin k cs p p')
    (more : List Expr.Segment) : PathTwin k cs (p ++ more) (p' ++ more) := by
  obtain ⟨span, rest, h⟩ := h
  exact .mk span (rest ++ more) h

theorem Expr.Twin.path? {cs : Bool} : {x x' : Expr} → Expr.Twin k cs x x' →
    Option.Rel (PathTwin k cs) x.path? x'.path?
  | _, _, .name span h => .some (.mk span [] h)
  | _, _, .member n nameSpan span h => by
    unfold Expr.path?
    obtain ⟨p, p', hx, hy, hp⟩ | ⟨hx, hy⟩ := rel_cases h.path? <;> rw [hx, hy]
    · exact .some (hp.append _)
    · exact .none
  | _, _, .literal .. | _, _, .context .. | _, _, .index .. | _, _, .call .. | _, _, .unary ..
  | _, _, .binary .. | _, _, .choice .. | _, _, .guarded .. => .none

mutual

theorem Expr.Twin.mono {j : Stock} {cs : Bool} (hsame : ∀ n n', k.same cs n n' → j.same cs n n')
    (hcontexts : k.contexts → j.contexts) : {x x' : Expr} → Expr.Twin k cs x x' → Expr.Twin j cs x x'
  | _, _, .literal l span => .literal l span
  | _, _, .name span h => .name span (hsame _ _ h)
  | _, _, .context n span h => .context n span (hcontexts h)
  | _, _, .member n nameSpan span h => .member n nameSpan span (h.mono hsame hcontexts)
  | _, _, .index span hx hi => .index span (hx.mono hsame hcontexts) (hi.mono hsame hcontexts)
  | _, _, .call span hx hargs => .call span (hx.mono hsame hcontexts) (hargs.mono hsame hcontexts)
  | _, _, .unary op span h => .unary op span (h.mono hsame hcontexts)
  | _, _, .binary op span hx hy => .binary op span (hx.mono hsame hcontexts) (hy.mono hsame hcontexts)
  | _, _, .choice span hx hy hz =>
    .choice span (hx.mono hsame hcontexts) (hy.mono hsame hcontexts) (hz.mono hsame hcontexts)
  | _, _, .guarded span hx hy => .guarded span (hx.mono hsame hcontexts) (hy.mono hsame hcontexts)

theorem Expr.TwinAll.mono {j : Stock} {cs : Bool} (hsame : ∀ n n', k.same cs n n' → j.same cs n n')
    (hcontexts : k.contexts → j.contexts) : {xs xs' : List Expr} → Expr.TwinAll k cs xs xs' → Expr.TwinAll j cs xs xs'
  | _, _, .nil => .nil
  | _, _, .cons hx hxs => .cons (hx.mono hsame hcontexts) (hxs.mono hsame hcontexts)

end

def Stock.correspondence (k : Stock) (cs : Bool) : Correspondence where
  eased := False
  code _ := Code.Twin k
  passed := Code.Twin k
  value _ := k.value
  field := k.field
  method := k.method
  fragment f f' := Binding.Twin k cs (.fragment f) (.fragment f')
  name := k.same cs
  first := k.same cs
  contexts := k.contexts
  place := id
  named h := h
  passing := id
  const := .const
  ofField := .field
  property _ := .property
  unary _ := .unary
  binary _ _ := .binary
  both := .both
  either := .either
  coalesce := .coalesce
  choice := .choice
  toBool := .toBool
  assign _ _ := id
  toText := .toText
  convert _ _ := .convert
  ofMethod hm hc hcs := .method hm hc (.of_forall₂ hcs)
  callValue hn hc hcs := .callValue (hn.imp_right fun h => ⟨cs, h⟩) hc (.of_forall₂ hcs)
  arity hf := by cases hf; rfl
  ofFragment hf hcs := by
    cases hf with
    | fragment hsteps hcompute hemit => exact .fragment hsteps hcompute hemit (.of_forall₂ hcs)

theorem Binding.Twin.bound {cs : Bool} {b b' : Binding} (h : Binding.Twin k cs b b') :
    (k.correspondence cs).Bound cs b b' := by
  cases h with
  | slot n kind o => exact .slot kind o o (.slot n)
  | ofVariable frame kind hname => exact .ofVariable (.ofVariable hname)
  | fragment hsteps hcompute hemit => exact .fragment (.fragment hsteps hcompute hemit)
  | hidden => exact .hidden

theorem pathTwin_iff {cs : Bool} {p p' : List Expr.Segment} :
    PathTwin k cs p p' ↔ (k.correspondence cs).Path (k.same cs) p p' := by
  constructor
  · rintro ⟨span, rest, h⟩
    exact .of_place (fun _ => rfl) span rest h
  · rintro ⟨span, rest, h⟩
    rw [Correspondence.map_segment fun _ => rfl]
    exact .mk span rest h

mutual

theorem Expr.Twin.like {cs : Bool} : {x x' : Expr} → Expr.Twin k cs x x' → (k.correspondence cs).Like x x'
  | _, _, .literal l span => .literal l span span
  | _, _, .name span h => .name span h
  | _, _, .context n span h => .context n span span h
  | _, _, .member n nameSpan span h => by
    obtain ⟨p, p', hp, hp', hpath⟩ | ⟨hp, hp'⟩ := rel_cases h.path?
    · exact .path n nameSpan span span hp hp' (pathTwin_iff.1 hpath)
    · exact .member n nameSpan span span hp hp' h.like
  | _, _, .index span hx hi => .index span span hx.like hi.like
  | _, _, .call span hx hargs => by
    have hcall := hx.like
    cases hx with
    | name nameSpan hn => exact .callName nameSpan span hn hargs.like
    | member n nameSpan s hx =>
      exact .callMember n nameSpan s s span (rel_imp hx.path? fun _ _ => pathTwin_iff.1) hx.like hargs.like
    | _ => exact .call span span nofun nofun hcall hargs.like
  | _, _, .unary op span h => .unary op span span h.like
  | _, _, .binary op span hx hy => .binary op span span hx.like hy.like
  | _, _, .choice span hx hy hz => .choice span span hx.like hy.like hz.like
  | _, _, .guarded span hx hy => .guarded span span hx.like hy.like

theorem Expr.TwinAll.like {cs : Bool} : {xs xs' : List Expr} → Expr.TwinAll k cs xs xs' →
    (k.correspondence cs).LikeAll xs xs'
  | _, _, .nil => .nil
  | _, _, .cons hx hxs => .cons hx.like hxs.like

end

theorem Typed.Twin.matched (h : Typed.Twin k t t') (cs : Bool) : (k.correspondence cs).Match t t' := ⟨h.kind, h.code⟩

theorem Correspondence.Match.twin {cs : Bool} (h : (k.correspondence cs).Match t t') : Typed.Twin k t t' :=
  ⟨h.kind, h.code⟩

namespace Setting

namespace Stocked

theorem takes (hs : s.Stocked k) {j : Kind} {t : HostType} (ht : s.host.describe s.world j = some t) {cs : Bool} :
    (k.correspondence cs).Takes s.world t :=
  ⟨(hs.types j t ht).field, (hs.types j t ht).static, (hs.types j t ht).method, fun _ => trivial⟩

theorem asks (hs : s.Stocked k) (scope : Scope) : Asks (k.correspondence s.caseSensitive) s (s.inScope scope) where
  host := rfl
  world := rfl
  caseSensitive := rfl
  resolvers := rfl
  strict := id
  eased h h' := not_eased s.strict ⟨h, h'⟩
  literals := hs.literals
  types _ ht := hs.takes ht
  elements hc hi _ := .index hc hi
  asked f hf t t' ht n q q' hq span _ := by
    have hrequest : NameRequest.Twin k (s.request t n q span) ((s.inScope scope).request t' n q' span) :=
      ⟨ht.twin, rfl, rel_imp hq fun _ _ ⟨p, p', hp, h⟩ => ⟨p, p', pathTwin_iff.2 hp, h⟩, rfl, rfl, rfl⟩
    have hanswer := hs.resolvers f hf _ _ hrequest
    exact hanswer.meets.imp fun _ _ h => rel_imp h fun _ _ hu => hu.matched _

theorem members (hs : s.Stocked k) (scope : Scope) : Members (k.correspondence s.caseSensitive) s (s.inScope scope) :=
  ⟨hs.asks scope, fun _ hc => .lateMember hc, fun _ hc hcs => .lateCall hc (.of_forall₂ hcs)⟩

end Stocked

end Setting

end Stencil
