import Stencil.Proofs.Run.Calm
import Stencil.Proofs.Run.Pieces
import Stencil.Proofs.Template.Alike
/-!
Templates that leave nothing behind. Without directives whose effect goes on after them, compiling leaves the names
in force as they were, and where the host has no side effects a run leaves the world and the slots of others so.
-/
set_option autoImplicit false

namespace Stencil

def Directives.lasting : List String := ["define", "undef", "using", "pragma"]

mutual

/-- A node with no directive of the given names; a verbatim body has no directives. -/
def Node.lacks {α : Type} (reg : Registry α) (names : List String) : Node → Bool
  | .directive tag ss => !names.contains tag.name && (reg.isVerbatim tag || DocSection.allLack reg names ss)
  | _ => true

def Node.allLack {α : Type} (reg : Registry α) (names : List String) : List Node → Bool
  | [] => true
  | nd :: ns => nd.lacks reg names && Node.allLack reg names ns

def DocSection.allLack {α : Type} (reg : Registry α) (names : List String) : List DocSection → Bool
  | [] => true
  | .mk _ _ _ ns :: ss => Node.allLack reg names ns && DocSection.allLack reg names ss

end

/-- Plain code that does not differ and calls only methods that leave the world as it is. -/
def Likeness.calm : Likeness := { Likeness.same with texts := False, method := Method.Pure }

theorem Likeness.modest_calm {h : Host} (hh : h.Pure) (k : Nat) : Likeness.calm.Modest (SlotUse.values k) .none h where
  toPlain := .values id k
  host := hh.modest
  methods := fun _ hm => hm

def Scope.Simple (s : Scope) : Prop := Scope.Alike .calm (SlotUse.values s.slots) s s

namespace Scope

def withSlots (s : Scope) (k : Nat) : Scope := { s with slots := k }

namespace Simple

variable {s : Scope}

theorem withSlots (h : s.Simple) {k : Nat} (hk : s.slots ≤ k) : (s.withSlots k).Simple := by
  have hmore : SlotUse.values s.slots <+: SlotUse.values k := by
    obtain ⟨n, rfl⟩ := Nat.le.dest hk
    exact ⟨SlotUse.values n, List.replicate_append_replicate⟩
  exact ⟨h.inner.imp fun _ _ hf => hf.mono (.refl _) hmore, h.root.mono (.refl _) hmore,
    List.length_replicate.symm, List.length_replicate.symm⟩

theorem push (h : s.Simple) (context : Kind) (binder : BinderKind) : (s.push context binder).Simple :=
  Scope.Alike.push h context binder

theorem declare (h : s.Simple) (frame : Nat) (name : String) (kind : Kind) (origin : Origin) :
    ((s.withSlots (s.slots + 1)).declare frame name (.slot s.slots kind origin)).Simple := by
  have hmore := h.withSlots (Nat.le_succ s.slots)
  have hdeclared := Scope.Alike.declare hmore frame name
    (.slot kind origin (SlotUse.getElem?_values (Nat.lt_succ_self s.slots)))
  have hslots : ((s.withSlots (s.slots + 1)).declare frame name (.slot s.slots kind origin)).slots = s.slots + 1 := by
    unfold Scope.declare modifyFrame
    split <;> rfl
  unfold Simple
  rw [hslots]
  exact hdeclared

end Simple

end Scope

def Names.withSlots (n : Names) (k : Nat) : Names := ⟨n.scope.withSlots k, n.namespaces⟩

/-- A compiler for a host without side effects, with resolvers that build on what they are asked about. -/
structure Compiler.Calm (c : Compiler) : Prop where
  host : c.host.Pure
  resolvers : ∀ f ∈ c.resolvers, f.Blind .calm

variable {c : Compiler} {α β : Type} {k : Nat} {P : Nat → α → Prop} {Q : Nat → β → Prop}

namespace Compile

/-- Where so many slots were given out, a computation gives out more slots and otherwise leaves the names in force
as they are; a condition on the slots holds of what it makes. -/
def Calms (c : Compiler) (k : Nat) (P : Nat → α → Prop) (x : Compile α) : Prop :=
  ∀ n, n.scope.slots = k → n.scope.Simple →
    Ensures (fun r => ∃ k', k ≤ k' ∧ r.2 = n.withSlots k' ∧ P k' r.1) (x c n)

abbrev Still (c : Compiler) (t : Code) : Prop := Flow.Modest .none (t.run c.host)

/-- Steps that leave the world as it is, and the slots from a number on. -/
abbrev Calm (c : Compiler) (k : Nat) (ss : List Step) : Prop := Flow.Calm k (Step.runAll c.host ss)

namespace Calms

theorem pure {a : α} (h : P k a) : Calms c k P (pure a) := by
  rintro n rfl -
  exact .ok ⟨_, Nat.le_refl _, rfl, h⟩

theorem throw {d : Diagnostic} : Calms c k P (throw d) := fun _ _ _ => .error

theorem bind {x : Compile α} {f : α → Compile β} (hx : Calms c k P x)
    (hf : ∀ k', k ≤ k' → ∀ a, P k' a → Calms c k' Q (f a)) : Calms c k Q (x >>= f) := by
  intro n hn hs
  rw [bind_apply]
  refine (hx n hn hs).bind ?_
  rintro ⟨a, m⟩ ⟨k₁, hk₁, rfl, ha⟩ r hr
  obtain ⟨k₂, hk₂, hm, hb⟩ := hf k₁ hk₁ a ha (n.withSlots k₁) rfl (hs.withSlots (hn ▸ hk₁)) r hr
  exact ⟨k₂, Nat.le_trans hk₁ hk₂, hm, hb⟩

theorem same {x : Compile α} (h : ∀ n, n.scope.Simple → Ensures (fun r => r.2 = n ∧ P k r.1) (x c n)) :
    Calms c k P x := by
  rintro n rfl hs r hr
  obtain ⟨hm, ha⟩ := h n hs r hr
  exact ⟨n.scope.slots, Nat.le_refl _, hm, ha⟩

theorem withFrame (context : Kind) (binder : BinderKind) {x : Compile α} (hx : Calms c k P x) :
    Calms c k P (withFrame context binder fun _ => x) := by
  intro n hn hs
  refine (hx ⟨n.scope.push context binder, n.namespaces⟩ hn (hs.push context binder)).bind ?_
  rintro ⟨a, _⟩ ⟨k₁, hk₁, rfl, ha⟩
  exact .ok ⟨k₁, hk₁, rfl, ha⟩

theorem imp {P' : Nat → α → Prop} {x : Compile α} (hx : Calms c k P x) (h : ∀ k' a, P k' a → P' k' a) :
    Calms c k P' x := by
  intro n hn hs r hr
  obtain ⟨k', hk', hm, ha⟩ := hx n hn hs r hr
  exact ⟨k', hk', hm, h k' r.1 ha⟩

theorem checked {fault : Nat → Nat → Diagnostic} {R : Nat → Step → Prop} {x : Compile Step} (hx : Calms c k R x) :
    Calms c k R (checked fault x) := by
  have hscope {k : Nat} : Calms c k (fun k' _ => k' = k) scope := .same fun _ _ => .ok ⟨rfl, rfl⟩
  refine hscope.bind fun k₁ _ s hk₁ => .bind (hk₁ ▸ hx) fun k₂ _ step hstep => hscope.bind fun k₃ _ s' hk₃ => ?_
  dsimp only
  split
  · exact .pure (hk₃ ▸ hstep)
  · exact .throw

theorem elaborateWith (hc : c.Calm) (strict : Bool) (e : Expr) (n : Names) (hs : n.scope.Simple) :
    Ensures (fun r => r.2 = n ∧ Still c r.1.code) (elaborateWith strict e c n) := by
  let st : Setting :=
    ⟨c.host, c.world, n.scope, c.types, n.namespaces, c.resolvers, c.options.caseSensitive, strict⟩
  have halike : Setting.Alike .calm (SlotUse.values n.scope.slots) st n.scope strict := {
    scope := hs
    eased := id
    resolvers := fun f hf => ⟨rfl, hc.resolvers f hf⟩
    types := fun _ _ ht => ⟨fun _ => trivial, hc.host.describe ht⟩ }
  show Ensures _ (Compile.ofExcept (st.elaborate e) c n)
  cases ht : st.elaborate e with
  | error d => exact .error
  | ok t =>
    obtain ⟨t', -, htt'⟩ := halike.elaborate (fun _ _ => rfl) e (fun _ _ _ => rfl) t ht
    exact .ok ⟨rfl, (RunRelation.modest (Likeness.modest_calm hc.host _)).code htt'.code⟩

end Calms

end Compile

open Compile (Calms Still Calm)

namespace Directive

theorem declareSlots_calm (frame : Nat) (origin : Origin) (names : List (String × Kind)) {n : Names} {f : Frame}
    {fs : List Frame} (hn : n.scope.inner = f :: fs) (hframe : frame = fs.length + 1) (hs : n.scope.Simple) :
    Ensures (fun r => ∃ f' k, n.scope.slots ≤ k ∧ r.2 = ⟨⟨f' :: fs, n.scope.root, k⟩, n.namespaces⟩ ∧
      r.2.scope.Simple ∧ ∀ m ∈ r.1, m < k) (declareSlots frame origin names c n) := by
  induction names generalizing n f with
  | nil =>
    refine .ok ⟨f, n.scope.slots, Nat.le_refl _, ?_, hs, nofun⟩
    rw [← hn]
  | cons x names ih =>
    obtain ⟨name, kind⟩ := x
    let next : Scope := (n.scope.withSlots (n.scope.slots + 1)).declare frame name (.slot n.scope.slots kind origin)
    obtain ⟨g, hinner, hroot, hslots⟩ : ∃ g, next.inner = g :: fs ∧ next.root = n.scope.root ∧
        next.slots = n.scope.slots + 1 := by
      simp [next, Scope.declare, Scope.modifyFrame, Scope.withSlots, Scope.modifyInner, hn, hframe]
    have hrest := ih (n := ⟨next, n.namespaces⟩) hinner (hs.declare frame name kind origin)
    unfold declareSlots
    refine Ensures.bind hrest ?_
    rintro ⟨slots, m⟩ ⟨f', k, hk, rfl, hsimple, hlt⟩
    dsimp only at hk hsimple hlt
    rw [hslots] at hk
    rw [hroot] at hsimple ⊢
    exact .ok ⟨f', k, by omega, rfl, hsimple, List.forall_mem_cons.2 ⟨by omega, hlt⟩⟩

theorem calms_lets (kind : Kind) (origin : Origin) (names : List (String × Kind)) {x : Compile α}
    (hx : ∀ k, Compile.Calms c k P x) :
    Compile.Calms c k (fun k' r => (∀ m ∈ r.1, m < k') ∧ P k' r.2)
      (Compile.withFrame kind .lets fun frame => do
        let slots ← declareSlots frame origin names
        return (slots, ← x)) := by
  rintro n rfl hs
  have hslots := declareSlots_calm (c := c) (n.scope.inner.length + 1) origin names
    (n := ⟨n.scope.push kind .lets, n.namespaces⟩) rfl rfl (hs.push kind .lets)
  have hinner : Ensures (fun r => ∃ f k, n.scope.slots ≤ k ∧
      r.2 = ⟨⟨f :: n.scope.inner, n.scope.root, k⟩, n.namespaces⟩ ∧ (∀ m ∈ r.1.1, m < k) ∧ P k r.1.2)
      ((do
        let slots ← declareSlots (n.scope.inner.length + 1) origin names
        return (slots, ← x)) c ⟨n.scope.push kind .lets, n.namespaces⟩) := by
    refine hslots.bind ?_
    rintro ⟨slots, m⟩ ⟨f, k, hk, rfl, hsimple, hlt⟩
    refine (hx k _ rfl hsimple).bind ?_
    rintro ⟨b, _⟩ ⟨k', hk', rfl, hb⟩
    exact .ok ⟨f, k', Nat.le_trans hk hk', rfl, fun m hm => Nat.lt_of_lt_of_le (hlt m hm) hk', hb⟩
  refine hinner.bind ?_
  rintro ⟨r, _⟩ ⟨f, k, hk, rfl, hr⟩
  exact .ok ⟨k, hk, rfl, hr⟩

end Directive

namespace Step

variable {test source : Code} {yes no body : Body}

theorem calm_choose (ht : Still c test) (hyes : Calm c k yes) (hno : Calm c k no) :
    Flow.Calm k ((choose test yes no).run c.host) := by
  refine Flow.Calm.bind (.of_modest ht) fun v => ?_
  split
  · exact hyes
  · exact hno

theorem calm_each (hs : Still c source) (hbody : Calm c k body) (hno : Calm c k no) :
    Flow.Calm k ((each source body no).run c.host) := by
  refine Flow.Calm.bind (.of_modest hs) fun v => .bind (.look _) fun items => ?_
  split
  · exact hno
  · exact .each (fun v => .withContext v hbody) items

theorem calm_assert {message : Code} (ht : Still c test) (hm : Still c message) :
    Flow.Calm k ((assert test message).run c.host) := by
  refine Flow.Calm.bind (.of_modest ht) fun v => ?_
  split
  · exact .value ()
  · exact Flow.Calm.bind (.of_modest hm) fun m => .reading fun e => .fail _

theorem calm_bind {slots : List Nat} {vs : List Code} (hslots : ∀ n ∈ slots, n < k)
    (hvs : Flow.Modest .none (Code.runAll c.host vs)) (hbody : Calm c k body) :
    Flow.Calm k ((bind slots vs body).run c.host) := by
  refine Flow.Calm.bind (.of_modest hvs) fun vs => .bind (.fill hslots vs) fun _ => .reading fun e => ?_
  exact .withContext _ hbody

end Step

theorem Code.modest_values {ts ts' : List Typed}
    (h : List.Forall₂ (fun t t' => t'.kind = t.kind ∧ Still c t.code) ts ts') :
    Flow.Modest .none (Code.runAll c.host (ts.map (·.code))) := by
  induction h with
  | nil => exact .value []
  | cons ht _ ih => exact .bind ht.2 fun _ => .bind ih fun _ => .value _

namespace Compiler

/-- Compiling gives out slots only; what it makes leaves nothing behind. -/
def calm (c : Compiler) : Simulation where
  first := c
  other := c
  offset := 0
  sited := False
  Stage := Nat
  After k k' := k ≤ k'
  enter k _ _ := k
  landing _ := .block
  rel k R x _ := Calms c k (fun k' a => ∃ b, R k' a b) x
  admits _ := True
  permits _ tag := tag.name ∉ Directives.lasting
  free _ _ := True
  own _ _ := True
  code _ _ t _ := Still c t
  slots k _ ns _ := ∀ n ∈ ns, n < k
  step k s _ := Flow.Calm k (s.run c.host)
  steps k ss _ := Compile.Calm c k ss

theorem calm_rel_iff {k : Nat} {α α' : Type} {R : Nat → α → α' → Prop} {x : Compile α} {y : Compile α'} :
    c.calm.rel k R x y ↔ Calms c k (fun k' a => ∃ b, R k' a b) x := .rfl

theorem calm_looks {k : Nat} {α α' : Type} {R : α → α' → Prop} {x : Compile α} {y : Compile α'}
    (h : ∀ n, n.scope.Simple → Ensures (fun r => r.2 = n ∧ ∃ b, R r.1 b) (x c n)) : c.calm.looks k R x y :=
  calm_rel_iff.2 (.same fun n hs r hr => (h n hs r hr).imp_right fun ⟨b, hb⟩ => ⟨b, rfl, hb⟩)

theorem not_permitted {tag : Tag} {name : String} (hname : tag.name = name) (h : tag.name ∉ Directives.lasting)
    (hlasting : name ∈ Directives.lasting) {q : Prop} : q :=
  absurd (hname ▸ hlasting) h

theorem Calm.kept (hc : c.Calm) : c.calm.Kept where
  refl := Nat.le_refl
  landing_after _ := rfl
  landing_enter _ _ _ _ := rfl
  landing_block _ _ := rfl
  own_after _ h := h
  code_after _ h := h
  step_after h hs := hs.mono h
  steps_after h hss := hss.mono h
  inner_after h hss := hss.mono h
  pure h := calm_rel_iff.2 (.pure ⟨_, h⟩)
  throw _ := calm_rel_iff.2 .throw
  bind hx hf := calm_rel_iff.2 <| (calm_rel_iff.1 hx).bind fun k' hk' a ⟨b, hab⟩ => hf k' hk' a b hab
  ordinary _ _ := trivial
  host := rfl
  world := rfl
  snippet _ := rfl
  read _ := calm_looks fun _ _ => .ok ⟨rfl, c, rfl, rfl⟩
  caseSensitive _ := calm_looks fun _ _ => .ok ⟨rfl, _, rfl, rfl⟩
  contextKind _ := calm_looks fun _ _ => .ok ⟨rfl, _, trivial, rfl⟩
  lenientPredicates := rfl
  setting _ _ _ := calm_looks fun _ _ r hr => ⟨by cases hr; rfl, r.1, trivial⟩
  elaborateWith _ _ _ _ _ := calm_looks fun n hs r hr =>
    (Calms.elaborateWith hc _ _ n hs r hr).imp_right fun hcode => ⟨r.1, rfl, hcode⟩
  expectNotLet _ name span _ _ := calm_looks fun n _ => by
    change Ensures _ ((if (n.scope.letOwner? c.options.caseSensitive name).isSome then
      throw (.of (.alreadyLet name) span) else pure () : Compile Unit) c n)
    split
    · exact .error
    · exact .ok ⟨rfl, (), trivial⟩
  frame _ hx := calm_rel_iff.2 (.withFrame _ _ (calm_rel_iff.1 hx))
  letFrame _ _ _ _ hx := calm_rel_iff.2 <| (Directive.calms_lets _ _ _ fun k => calm_rel_iff.1 (hx k rfl)).imp
    fun k' r hr => ⟨([], hr.2.choose), hr.1, hr.2.choose_spec⟩
  checked _ _ h := calm_rel_iff.2 (calm_rel_iff.1 h).checked
  context _ := .reading fun _ => .value _
  message _ _ := .value _
  toBool h := .bind h fun _ => .value _
  nil _ := Flow.Calm.value ()
  cons h hss := Flow.Calm.bind h fun _ => hss
  ofSteps {k ss ss'} hss := show Flow.Calm k (Step.runAll c.host (Body.ofSteps ss)) by
    rw [Step.runAll_ofSteps]
    exact hss
  text _ s := .write s
  emit h := Flow.Calm.bind (.of_modest h) fun v => .reading fun e => .write _
  choose := Step.calm_choose
  each hc _ := Step.calm_each hc
  inside hc hb := Flow.Calm.bind (.of_modest hc) fun v => .withContext v hb
  lets _ hslots hts hb := Step.calm_bind hslots (Code.modest_values hts) hb
  assert := Step.calm_assert
  raise _ _ := .fail _
  raiseText hb := Flow.Calm.bind (.capture hb) fun _ => .fail _
  rendered hname hpermits _ := not_permitted hname hpermits (by decide)
  bindValue hname hpermits _ _ _ _ := not_permitted hname hpermits (by decide)
  fragment hname hpermits _ _ _ _ := not_permitted hname hpermits (by decide)
  undef hname hpermits _ _ := not_permitted hname hpermits (by decide)
  passCap _ hname hpermits := not_permitted hname hpermits (by decide)
  tell _ hname hpermits := not_permitted hname hpermits (by decide)
  addNamespace _ hname hpermits := not_permitted hname hpermits (by decide)

end Compiler

namespace Compile

mutual

theorem calms_node (hc : c.Calm) : (nd : Node) → nd.lacks Directives.standard Directives.lasting = true →
    ∀ k, Calms c k (fun k' s => Flow.Calm k' (s.run c.host)) (node .standard nd)
  | .text t, _, _ => by
    rw [node]
    exact .pure (.write t)
  | .expr text span, _, k => by
    rw [node]
    exact (Compiler.calm_rel_iff.1 (kept_expr (w := k) hc.kept False.elim)).imp fun _ _ ⟨_, h⟩ => h
  | .directive tag ss, h, k => by
    rw [Node.lacks] at h
    simp only [Bool.and_eq_true, Bool.or_eq_true, Bool.not_eq_true', List.contains_eq_mem, decide_eq_false_iff_not] at h
    rw [node]
    have hkept := kept_directive (w := k) hc.kept False.elim h.1 (h.2.imp (fun hv => And.intro hv rfl) fun hss =>
      calms_sections hc ss hss _)
    exact (Compiler.calm_rel_iff.1 hkept).imp fun _ _ ⟨_, h⟩ => h
  | .fault d, _, _ => by
    rw [node]
    exact .throw

theorem calms_nodes (hc : c.Calm) :
    (ns : List Node) → Node.allLack Directives.standard Directives.lasting ns = true → ∀ k,
    Calms c k (Calm c) (nodes .standard ns)
  | [], _, _ => by
    rw [nodes]
    exact .pure (.value ())
  | nd :: ns, h, k => by
    rw [Node.allLack, Bool.and_eq_true] at h
    rw [nodes]
    refine (calms_node hc nd h.1 k).bind fun k' _ s hs => (calms_nodes hc ns h.2 k').bind fun k'' hk'' ss hss => ?_
    exact .pure (Flow.Calm.bind (hs.mono hk'') fun _ => hss)

theorem calms_sections (hc : c.Calm) :
    (ss : List DocSection) → DocSection.allLack Directives.standard Directives.lasting ss = true → ∀ r,
    List.Forall₂ (Section.Like c.calm r) (sections .standard ss) (sections .standard ss)
  | [], _, _ => by
    rw [sections]
    exact .nil
  | .mk control span text ns :: ss, h, r => by
    rw [DocSection.allLack, Bool.and_eq_true] at h
    rw [sections]
    refine .cons ⟨(Tag.map_shift_zero control).symm, fun _ _ => False.elim, rfl, rfl, fun k _ => ?_⟩
      (calms_sections hc ss h.2 r)
    refine Compiler.calm_rel_iff.2 ((calms_nodes hc ns h.1 k).bind fun k' _ b hb => .pure ⟨Body.ofSteps b, ?_⟩)
    exact hc.kept.ofSteps hb

end

end Compile

end Stencil
