import Stencil.Proofs.Run.Frames
import Stencil.Proofs.Template.Content
import Stencil.Proofs.Typing.Yields
set_option autoImplicit false

namespace Stencil

variable {h : Host} {I : Env → Prop} {known : EnumType → Prop} {s : Setting}

namespace Kind

variable {a b : Kind}

theorem assignable_refl (k : Kind) : k.assignable k := by
  induction k with
  | list k ih => exact ih
  | _ => simp [assignable, isNullable, same_refl]

theorem ofBranches_cases (hnames : EnumType.Distinct known) (ha : a.Over known) (hb : b.Over known) :
    (a.ofBranches b).Over known ∧
      ((a.ofBranches b).Plain ∨ a.assignable (a.ofBranches b) ∧ b.assignable (a.ofBranches b)) := by
  have hany : any.Over known ∧ (any.Plain ∨ a.assignable any ∧ b.assignable any) :=
    ⟨trivial, .inl trivial⟩
  unfold ofBranches
  split
  · next heq =>
    obtain rfl := eq_of_same hnames ha hb heq
    exact ⟨ha, .inr ⟨assignable_refl a, assignable_refl a⟩⟩
  · split
    · split
      · next hk =>
        refine ⟨hb, .inr ⟨?_, assignable_refl b⟩⟩
        cases b with
        | bool | int | float | enum => cases hk
        | _ => rfl
      · exact hany
    · split
      · next hk =>
        refine ⟨ha, .inr ⟨assignable_refl a, ?_⟩⟩
        cases a with
        | bool | int | float | enum => cases hk
        | _ => rfl
      · exact hany
    · split
      · cases hp : a.promote b with
        | none => exact hany
        | some k => exact ⟨over_promote hp, .inl (over_promote hp)⟩
      · exact hany

end Kind

theorem Literal.over_value (l : Literal) (span : Span) (w : World) :
    Ensures (fun v => (v.kind w).Over known) (l.value span) := by
  cases l with
  | pattern body flags =>
    rw [Literal.value]
    split
    · exact .ok trivial
    · exact .error
    · exact .error
  | _ => exact .ok trivial

theorem Host.variableKind?_eq_none {w : World} {cs : Bool} {name : String} {k : Kind} (hk : k.Over known) :
    h.variableKind? w cs name k = none := by
  cases k with
  | object => exact hk.elim
  | _ => rfl

theorem yields_of_forall₂ {cs cs' : List Code} (hcs : List.Forall₂ (fun c _ => ∃ k, Yields h I c k) cs cs') :
    ∀ c ∈ cs, ∃ k, Yields h I c k := by
  induction hcs with
  | nil => exact nofun
  | cons hc _ ih => exact List.forall_mem_cons.2 ⟨hc, ih⟩

section

variable (h : Host) (I : Env → Prop) (known : EnumType → Prop)

/-- What a name stands for yields values of its kind, and keeps the environment as it has to be. -/
def Binding.Sound : Binding → Prop
  | .slot n k _ => k.Over known ∧ ∀ e, I e → Has k (e.slot n)
  | .variable _ _ k => k.Plain
  | .fragment f =>
    ∀ e₁ e₂ e' contexts args s, I e₁ → e₁.slot f.snapshot = .list contexts → I e₂ →
      f.body h contexts (e₂.setSlots f.params args) = (.ok s, e') → I e'
  | .hidden => True

def NamedType.IsEnum (known : EnumType → Prop) (t : NamedType) : Prop := ∃ e, t = .enum e ∧ known e

/-- Code that yields values of its kind, which is not that of an object. -/
def soundness (hnames : EnumType.Distinct known) (hI : ∀ e w, I e → I { e with world := w }) : Correspondence where
  eased := False
  code k c _ := k.Over known ∧ Yields h I c k
  passed c _ := ∃ k, Yields h I c k
  target k j := j.Over known ∧ (k.assignable j ∨ j.Plain)
  value w v := (v.kind w).Over known
  field := Field.Reliable
  method := Method.Reliable
  dynamic := False
  fragment f f' := f' = f ∧ (Binding.fragment f).Sound h I known
  name n n' := n' = n
  first n n' := n' = n
  place := id
  named h := h
  passing hc := ⟨_, hc.2⟩
  const hv := ⟨hv, .const (.of_kind hv)⟩
  ofField hf hc := ⟨hf.kind.over, hc.2.field hf.read⟩
  property h := h.elim
  unary hop hc := ⟨UnaryOp.over_kind hc.1 hop, .unary hc.1 hop hc.2⟩
  binary hne hop ha hb := ⟨BinaryOp.over_kind ha.1 hb.1 hop, .binary hne ha.1 hb.1 hop ha.2 hb.2⟩
  both ha hb := ⟨trivial, .both ha.2 hb.2⟩
  either ha hb := ⟨trivial, .either ha.2 hb.2⟩
  coalesce ha hb := ⟨Kind.over_meet ha.1 hb.1, .coalesce hnames ha.1 hb.1 ha.2 hb.2⟩
  choice ht hy hn := ⟨hy.1, .choice ht.2 hy.2 hn.2⟩
  assign hk hassign hc := ⟨hk.1, fun e e' v he hv => (hc.2 he hv).imp_right (Has.assign hnames hc.1 hk.1 hassign)⟩
  toBool hc := ⟨trivial, hc.2.toBool⟩
  toText hc := ⟨trivial, hc.2.toText⟩
  convert hk hassign hc := ⟨hk.1, .convert (hk.2.resolve_left hassign) hc.2⟩
  tests _ := ⟨trivial, .inr trivial⟩
  branches ha hb := by
    obtain ⟨hover, hfit⟩ := Kind.ofBranches_cases hnames ha.1 hb.1
    exact ⟨⟨hover, hfit.symm.imp_left And.left⟩, ⟨hover, hfit.symm.imp_left And.right⟩⟩
  params hm k hk _ := ⟨(hm.params k hk).over, .inr (hm.params k hk)⟩
  ofMethod hm hc hcs := ⟨hm.returns.over, .method hI hm.run hc.2 (yields_of_forall₂ hcs)⟩
  callValue _ hc hcs := ⟨trivial, .callValue hI hc.2 (yields_of_forall₂ hcs)⟩
  arity hf := by rw [hf.1]
  ofFragment hf hcs := ⟨trivial, .fragment hf.2 (yields_of_forall₂ hcs)⟩

end

/-- A setting in which expressions yield values of their kinds, from the environments with a property. -/
structure Setting.Admits (s : Setting) (I : Env → Prop) (known : EnumType → Prop) : Prop where
  names : EnumType.Distinct known
  types : ∀ entry ∈ s.types.entries, entry.2.IsEnum known
  resolvers : s.resolvers = []
  frames : ∀ f ∈ s.scope.frames, f.context.Over known
  contexts : ∀ e, I e → ∀ n k, s.scope.context? n = some k → Has k (e.context n)
  bindings : ∀ f ∈ s.scope.frames, ∀ b ∈ f.bindings.entries, b.2.Sound s.host I known
  world : ∀ e w, I e → I { e with world := w }

namespace Setting.Admits

variable (hs : s.Admits I known)
include hs

theorem members : Members (soundness s.host I known hs.names hs.world) s s where
  host := rfl
  world := rfl
  caseSensitive := rfl
  resolvers := rfl
  strict := id
  eased h h' := not_eased s.strict ⟨h, h'⟩
  literals l span := l.over_value span s.world
  types hc ht := by
    have htype := Host.reliable_describe hc.1 ht
    refine ⟨htype.field, fun hm => ?_, fun _ => htype.method, fun hd => ?_⟩
    · rw [htype.static] at hm
      cases hm
    · rw [htype.isDynamic] at hd
      cases hd
  elements {k j m c c' i i'} hc hi hk := by
    have hdynamic : s.host.isDynamic s.world k = false := by
      cases k with
      | object => exact hc.1.elim
      | _ => rfl
    rw [hdynamic] at hk
    exact ⟨Host.over_element? hc.1 hk, .index hc.1 hk hc.2 hi.2⟩
  asked f hf := by
    rw [hs.resolvers] at hf
    cases hf
  lateMember _ hc := ⟨trivial, hc.2.lateMember⟩
  lateCall _ hc hcs := ⟨trivial, .lateCall hs.world hc.2 (yields_of_forall₂ hcs)⟩

theorem upholds : Upholds (soundness s.host I known hs.names hs.world) s where
  members strict := members (s := { s with strict })
    ⟨hs.names, hs.types, hs.resolvers, hs.frames, hs.contexts, hs.bindings, hs.world⟩
  statics n id name hn := by
    obtain ⟨e, he, -⟩ := hs.types _ hn
    cases he
  variants n e name v hn _ := by
    obtain ⟨_, ⟨⟩, he⟩ := hs.types _ hn
    exact he
  lookup {n i b} hb := by
    obtain ⟨f, hf, ⟨m, hm⟩ | ⟨k, hk, -⟩⟩ := Scope.cases_of_lookupIn hb
    · have hsound := hs.bindings f hf _ hm
      cases b with
      | slot n k o => exact .slot k o o ⟨hsound.1, .slot hsound.2⟩
      | «variable» frame n k => exact .ofVariable ⟨hsound.over, .ofVariable hsound⟩
      | fragment f => exact .fragment ⟨rfl, hsound⟩
      | hidden => exact .hidden
    · rw [Host.variableKind?_eq_none (hs.frames f hf)] at hk
      cases hk
  context {n k} hk := by
    obtain ⟨f, hf, rfl⟩ := Option.map_eq_some_iff.1 hk
    exact ⟨hs.frames f (List.mem_of_getElem? hf), .context fun e he => hs.contexts e he n _ hk⟩

theorem elaborate (x : Expr) :
    Ensures (fun t => t.kind.Over known ∧ Yields s.host I t.code t.kind) (s.elaborate x) := by
  intro t ht
  have hmeets := hs.upholds.elaborate ⟨⟨fun _ => rfl, fun _ => rfl, trivial⟩, id, fun _ => rfl⟩ (.any x)
  obtain ⟨t', -, hmatch⟩ := hmeets.tracks t ht
  exact hmatch.code

end Setting.Admits

/-- Each kind has a value of it at its place, and where there is no value it is null that stands there. -/
def AllOf (of : Kind → Value → Prop) (ks : List Kind) (vs : List Value) : Prop :=
  ∀ i k, ks[i]? = some k → of k (vs.getD i .null)

namespace AllOf

variable {of : Kind → Value → Prop} {k : Kind} {ks : List Kind} {v : Value} {vs : List Value}

theorem cons (hv : of k v) (hvs : AllOf of ks vs) : AllOf of (k :: ks) (v :: vs) := by
  intro i k' hi
  cases i with
  | zero =>
    cases hi
    exact hv
  | succ i => exact hvs i k' hi

theorem tail (hvs : AllOf of (k :: ks) vs) : AllOf of ks (vs.drop 1) := by
  intro i k' hi
  have htail := hvs (i + 1) k' hi
  cases vs with
  | nil => exact htail
  | cons v vs => exact htail

end AllOf

/-- A slot that is kept for contexts holds a list of them once it holds one, from the outermost in. -/
def SlotKind.Takes (of : Kind → Value → Prop) : SlotKind → Value → Prop
  | .value k, v => of k v
  | .contexts ks, v => ∀ vs, v = .list vs → AllOf of ks vs.reverse

/-- A value inhabits a kind, and is of known enum types where the kind asks for enum types. -/
def Kind.Fits (known : EnumType → Prop) (w : World) (k : Kind) (v : Value) : Prop :=
  Inhabits w k v ∧ ∀ t, v.EnumAt t k → known t

theorem Kind.fits_iff {k : Kind} {w : World} {v : Value} (hnames : EnumType.Distinct known) (hk : k.Over known) :
    k.Fits known w v ↔ Has k v :=
  ⟨fun hv => .of_inhabits hnames hk hv.2 hv.1, fun hv => ⟨hv.inhabits, fun _ ht => hv.known_of_enumAt hk ht⟩⟩

namespace Ledger

/-- The contexts and slots of an environment hold what a ledger says. -/
structure Holds (of : Kind → Value → Prop) (l : Ledger) (e : Env) : Prop where
  contexts : AllOf of l.contexts e.contexts
  slots : ∀ (n : Nat) (d : SlotKind), l.slots[n]? = some d → d.Takes of (e.slot n)

def Fits (known : EnumType → Prop) (l : Ledger) (e : Env) : Prop := l.Holds (Kind.Fits known e.world) e

namespace Holds

variable {of of' : Kind → Value → Prop} {q : Kind → Prop} {l : Ledger} {e e' : Env} {v : Value} {vs : List Value}

theorem imp (hl : l.All q) (h : ∀ k v, q k → of k v → of' k v) (he : l.Holds of e) : l.Holds of' e := by
  refine ⟨fun i k hi => h _ _ (hl.contexts k (List.mem_of_getElem? hi)) (he.contexts i k hi), fun n d hn => ?_⟩
  have hd := hl.slots d (List.mem_of_getElem? hn)
  have hv := he.slots n d hn
  cases d with
  | value k => exact h _ _ hd hv
  | contexts ks => exact fun vs hvs i k hi => h _ _ (hd k (List.mem_of_getElem? hi)) (hv vs hvs i k hi)

theorem of_same (he : l.Holds of e) (hcontexts : e'.contexts = e.contexts) (hslots : e'.slots = e.slots) :
    l.Holds of e' := by
  refine ⟨hcontexts ▸ he.contexts, ?_⟩
  unfold Env.slot
  rw [hslots]
  exact he.slots

theorem setSlot (he : l.Holds of e) {n : Nat} {d : SlotKind} (hn : l.slots[n]? = some d) (hv : d.Takes of v) :
    l.Holds of (e.setSlot n v) := by
  refine ⟨he.contexts, fun m d' hm => ?_⟩
  by_cases hnm : n = m
  · subst hnm
    rw [hn] at hm
    cases hm
    rw [e.slot_setSlot]
    exact hv
  · rw [e.slot_setSlot_ne hnm]
    exact he.slots m d' hm

theorem setSlots (he : l.Holds of e) {ns : List Nat}
    (h : ∀ p ∈ ns.zip vs, ∃ k, l.slots[p.1]? = some (.value k) ∧ of k p.2) : l.Holds of (e.setSlots ns vs) := by
  induction ns generalizing e vs with
  | nil => exact he
  | cons n ns ih =>
    cases vs with
    | nil => exact he
    | cons v vs =>
      obtain ⟨⟨k, hn, hv⟩, hns⟩ := List.forall_mem_cons.1 h
      exact ih (he.setSlot (d := .value k) hn hv) hns

end Holds

end Ledger

namespace Flow.Leads

open Ledger (Holds)

variable {α : Type} {P : α → Prop} {l : Ledger} {k : Kind} {ks : List Kind} {v : Value} {vs : List Value} {x : Flow α}

theorem write (s : String) : Leads (l.Holds Has) (fun _ => True) (Flow.write s) :=
  .update fun e he => he.of_same (e.contexts_write s) (e.slots_write s)

theorem withContext (hv : Has k v) (hx : Leads ((l.enter k).Holds Has) P x) :
    Leads (l.Holds Has) P (Flow.withContext v x) := by
  intro e e' a he ha
  unfold Flow.withContext at ha
  cases hr : x { e with contexts := v :: e.contexts } with
  | mk r e₁ =>
    rw [hr] at ha
    cases ha
    have hinner : (l.enter k).Holds Has { e with contexts := v :: e.contexts } := ⟨he.contexts.cons hv, he.slots⟩
    obtain ⟨he₁, ha⟩ := hx hinner hr
    exact ⟨⟨he₁.contexts.tail, he₁.slots⟩, ha⟩

theorem withContexts (hvs : AllOf Has ks vs.reverse) (hx : Leads (Holds Has ⟨l.slots, ks⟩) P x) :
    Leads (l.Holds Has) P (Flow.withContexts vs x) := by
  intro e e' a he ha
  unfold Flow.withContexts at ha
  cases hr : x { e with contexts := vs.reverse } with
  | mk r e₁ =>
    rw [hr] at ha
    cases ha
    have hinner : Holds Has ⟨l.slots, ks⟩ { e with contexts := vs.reverse } := ⟨hvs, he.slots⟩
    obtain ⟨he₁, ha⟩ := hx hinner hr
    exact ⟨⟨he.contexts, he₁.slots⟩, ha⟩

theorem capture {x : Flow Unit} (hx : Leads (l.Holds Has) (fun _ => True) x) :
    Leads (l.Holds Has) (fun _ => True) (Flow.capture x) := by
  intro e e' a he ha
  unfold Flow.capture at ha
  cases hr : x { e with captures := "" :: e.captures } with
  | mk r e₁ =>
    rw [hr] at ha
    cases r with
    | error r => cases ha
    | ok a =>
      cases ha
      have hinner : l.Holds Has { e with captures := "" :: e.captures } := he.of_same rfl rfl
      exact ⟨(hx hinner hr).1.of_same rfl rfl, trivial⟩

theorem parts {x y : Flow Unit} (hx : Leads (l.Holds Has) (fun _ => True) x)
    (hy : Leads (l.Holds Has) (fun _ => True) y) : Leads (l.Holds Has) (fun _ => True) (Flow.parts x y) :=
  (capture hx).bind fun _ _ => capture hy

end Flow.Leads

theorem Host.has_elements {w w' : World} {v : Value} {k element : Kind} (hk : k.Over known)
    (helement : h.element? w k = some element) (hv : Has k v) :
    Ensures (fun vs => ∀ u ∈ vs, Has element u) (v.elements w') := by
  cases k with
  | list k =>
    cases helement
    cases hv with
    | null => exact .ok (List.forall_mem_nil _)
    | list hitems => exact .ok hitems
  | text =>
    cases helement
    cases hv with
    | null => exact .ok (List.forall_mem_nil _)
    | text s =>
      refine .ok fun u hu => ?_
      obtain ⟨c, -, rfl⟩ := List.mem_map.1 hu
      exact .text _
  | any | null =>
    cases helement
    exact fun _ _ _ _ => .any
  | object => exact hk.elim
  | _ => cases helement

namespace Content

open Stencil.Flow (Leads)

/-- Expressions yield values of their kinds and steps keep what a ledger says, also under the ledgers that grow from
the one they are made under. -/
def typed (h : Host) (known : EnumType → Prop) : Content where
  kind := Kind.Over known
  variableKind := Kind.Plain
  dynamic := False
  code l k t := k.Over known ∧ ∀ l', l.Grows l' → Yields h (l'.Holds Has) t k
  step l s := ∀ l', l.Grows l' → Leads (l'.Holds Has) (fun _ => True) (s.run h)

variable {l l' : Ledger}

theorem leads_steps {ss : List Step} (hss : (typed h known).steps l ss) (hl : l.Grows l') :
    Leads (l'.Holds Has) (fun _ => True) (Step.runAll h ss) := by
  induction ss with
  | nil => exact .value trivial
  | cons s ss ih =>
    obtain ⟨hs, hss⟩ := List.forall_mem_cons.1 hss
    rw [Step.runAll]
    exact (hs l' hl).bind fun _ _ => ih hss

theorem sound_fragment {f : Fragment} (hf : (typed h known).Binds l.slots (.fragment f)) (hl : l.Grows l') :
    (Binding.fragment f).Sound h (l'.Holds Has) known := by
  obtain ⟨k, ks, hsnapshot, hparams, hcompute, hemit⟩ := hf
  intro e₁ e₂ e' contexts args s he₁ hcontexts he₂ hrun
  have hheld : AllOf Has (k :: ks) contexts.reverse := he₁.slots _ _ (hl.getElem? hsnapshot) contexts hcontexts
  have hinnermost : Has k (contexts.getLast?.getD .null) := by
    have hhead := hheld 0 k rfl
    rwa [List.getD_eq_getElem?_getD, ← List.head?_eq_getElem?, List.head?_reverse] at hhead
  have hfilled : l'.Holds Has (e₂.setSlots f.params args) := by
    refine he₂.setSlots fun p hp => ⟨.any, hl.getElem? (hparams p.1 (List.of_mem_zip hp).1), .any⟩
  have hgrows : Ledger.Grows ⟨l.slots, k :: k :: ks⟩ ⟨l'.slots, k :: k :: ks⟩ := ⟨hl.slots, rfl⟩
  have hparts := Leads.parts (leads_steps hcompute hgrows) (leads_steps hemit hgrows)
  exact (Leads.withContexts hheld (.withContext hinnermost hparts) hfilled hrun).1

end Content

/-- The types are known enum types, which their full names tell apart, and no resolver answers in place of the
members. -/
structure Compiler.Objectless (c : Compiler) (known : EnumType → Prop) : Prop where
  names : EnumType.Distinct known
  types : ∀ entry ∈ c.types.entries, entry.2.IsEnum known
  resolvers : c.resolvers = []

variable {c : Compiler}

theorem Compiler.Objectless.blameless (hc : c.Objectless known) : c.Blameless :=
  fun _ hf => absurd (hc.resolvers ▸ hf) List.not_mem_nil

namespace Content

open Stencil.Flow (Leads)

variable {l l' : Ledger}

theorem leads_lets {kind : Kind} {ns : List Nat} {ts : List Typed} {body : Body} (hl : l.Grows l')
    (hkind : ∃ ks, l.contexts = kind :: ks)
    (hns : List.Forall₂ (fun n k => l.slots[n]? = some (.value k)) ns (ts.map (·.kind)))
    (hts : ∀ t ∈ ts, Yields h (l'.Holds Has) t.code t.kind)
    (hbody : (typed h known).steps (l.enter kind) body) :
    Leads (l'.Holds Has) (fun _ => True) ((Step.bind ns (ts.map (·.code)) body).run h) := by
  have hcodes : ∀ c ∈ ts.map (·.code), ∃ k, Yields h (l'.Holds Has) c k := by
    intro c hc
    obtain ⟨t, ht, rfl⟩ := List.mem_map.1 hc
    exact ⟨t.kind, hts t ht⟩
  refine (Yields.runAll hcodes).bind fun vs hvs => ?_
  have hfill : ∀ p ∈ ns.zip vs, ∃ k, l'.slots[p.1]? = some (.value k) ∧ Has k p.2 := by
    rw [List.forall₂_map_right_iff] at hns
    rw [List.forall₂_map_left_iff] at hvs
    clear hcodes
    induction hns generalizing vs with
    | nil => exact fun _ hp => absurd hp List.not_mem_nil
    | @cons n t ns ts hn _ ih =>
      obtain ⟨ht, hts⟩ := List.forall_mem_cons.1 hts
      cases hvs with
      | cons hv hvs => exact List.forall_mem_cons.2 ⟨⟨t.kind, hl.getElem? hn, hv t.kind ht⟩, ih hts _ hvs⟩
  refine (Leads.update fun e he => he.setSlots hfill).bind fun _ _ => ?_
  obtain ⟨ks, hks⟩ := hkind
  have hcontext : Leads (l'.Holds Has) (fun e => Has kind (Env.context e 0)) get := .reading fun e he =>
    he.contexts 0 kind (by rw [hl.contexts, hks]; rfl)
  exact hcontext.bind fun e he => .withContext he (leads_steps hbody (hl.enter kind))

theorem Sound.admits {n : Names} (hc : c.Objectless known) (hn : (typed c.host known).Sound l n.scope)
    (hl : l.Grows l') (strict : Bool) : (c.settingAt n strict).Admits (l'.Holds Has) known where
  names := hc.names
  types := hc.types
  resolvers := hc.resolvers
  frames f hf := hn.kinds.contexts _ (hn.contexts ▸ List.mem_map_of_mem hf)
  contexts e he i k hk := by
    refine he.contexts i k ?_
    rw [hl.contexts, ← hn.contexts, Scope.kinds, List.getElem?_map]
    exact hk
  bindings := by
    rintro f hf ⟨name, b⟩ hb
    have hbinds := (hn.frames f hf).bindings _ hb
    cases b with
    | slot m k origin =>
      exact ⟨hn.kinds.slots _ (List.mem_of_getElem? hbinds), fun e he => he.slots m _ (hl.getElem? hbinds)⟩
    | «variable» i x k => exact hbinds
    | fragment f => exact sound_fragment hbinds hl
    | hidden => trivial
  world e w he := he.of_same rfl rfl

theorem lawful_typed (hc : c.Objectless known) : (typed c.host known).Lawful c where
  context {l k} hk := by
    obtain ⟨hover, ks, hks⟩ := hk
    refine ⟨hover, fun l' hl => .context fun e he => he.contexts 0 k ?_⟩
    rw [hl.contexts, hks]
    rfl
  message l s := ⟨trivial, fun _ _ => .const (.text s)⟩
  text l s := fun _ _ => .write s
  emit hc := fun l' hl => Leads.bind (hc.2 l' hl) fun v _ =>
    Leads.bind (.reading fun _ _ => trivial) fun _ _ => .write _
  choose hc hyes hno := fun l' hl => Leads.bind (hc.2 l' hl) fun _ _ =>
    .either (leads_steps hyes hl) (leads_steps hno hl)
  each hc helement hbody hfallback := fun l' hl => by
    refine Leads.bind (hc.2 l' hl) fun v hv => Leads.bind (.look fun w => Host.has_elements hc.1 helement hv) ?_
    intro items hitems
    refine .either (leads_steps hfallback hl) (.each fun u hu => ?_)
    exact .withContext (hitems u hu) (leads_steps hbody (hl.enter _))
  inside hc hbody := fun l' hl => Leads.bind (hc.2 l' hl) fun v hv => .withContext hv (leads_steps hbody (hl.enter _))
  lets hkind hslots hts hbody := fun l' hl =>
    leads_lets hl hkind.2 hslots (fun t ht => (codes_of_typed hts t ht).2 l' hl) hbody
  assert hc hm := fun l' hl => by
    refine Leads.bind (hc.2 l' hl) fun _ _ => .either (.value trivial) (Leads.bind (hm.2 l' hl) fun _ _ => ?_)
    exact Leads.bind (.reading fun _ _ => trivial) fun _ _ => .halt _
  raise l message := fun _ _ => .halt _
  raiseText hbody := fun l' hl => (Leads.capture (leads_steps hbody hl)).bind fun _ _ => .halt _
  rendered _ _ h := ⟨trivial, fun l' hl => (Leads.parts (leads_steps h.1 hl) (leads_steps h.2 hl)).bind fun s _ =>
    .value (.text s)⟩
  passCap n _ _ := fun _ _ => .update fun e he => he.of_same rfl rfl
  tell s _ _ := fun l' _ e e' _ he hrun => by
    obtain ⟨w, hw⟩ := Flow.Quiet.pragma c.host s e
    rw [hrun] at hw
    obtain rfl : e' = _ := hw
    exact ⟨he.of_same rfl rfl, trivial⟩
  code_mono hl hc := ⟨hc.1, fun l' hl' => hc.2 l' (hl.trans hl')⟩
  step_mono hl hs := fun l' hl' => hs l' (hl.trans hl')
  kind_of_code hc := hc.1
  element := Host.over_element?
  any := trivial
  variableKinds := False.elim
  elaborate {l n strict x t} hn ht :=
    ⟨((hn.admits hc (.refl l) strict).elaborate x t ht).1, fun l' hl => ((hn.admits hc hl strict).elaborate x t ht).2⟩
  toBool hc := ⟨trivial, fun l' hl => (hc.2 l' hl).toBool⟩
  setSlot {l k n t} hn hc := fun l' hl => Leads.bind (hc.2 l' hl) fun v hv => .update fun e he =>
    he.setSlot (d := .value k) (hl.getElem? hn) hv
  setVariable _ _ h := h.elim
  unsetVariable _ _ _ h := h.elim
  snapshot {l n} hn := fun l' hl => .update fun e he => by
    refine he.setSlot (hl.getElem? hn) fun vs hvs => ?_
    cases hvs
    rw [Env.snapshot, List.reverse_reverse, ← hl.contexts]
    exact he.contexts

end Content

theorem Ledger.All.fits_iff {l : Ledger} (hl : l.All (Kind.Over known)) (hnames : EnumType.Distinct known) (e : Env) :
    l.Fits known e ↔ l.Holds Has e :=
  ⟨fun he => he.imp hl fun _ _ hk => (Kind.fits_iff hnames hk).1,
    fun he => he.imp hl fun _ _ hk => (Kind.fits_iff hnames hk).2⟩

/-- A binding that is not of an object or of a fragment. Variables are read from objects, which can hold enum types
that are not known. -/
def Binding.Objectless (known : EnumType → Prop) : Binding → Prop
  | .slot _ k _ => k.Over known
  | .variable _ _ k => k.Plain
  | .fragment _ => False
  | .hidden => True

namespace Scope

/-- Nothing is declared to hold objects, and no fragment is defined yet. -/
structure Objectless (known : EnumType → Prop) (s : Scope) : Prop where
  contexts : ∀ f ∈ s.frames, f.context.Over known
  bindings : ∀ f ∈ s.frames, ∀ e ∈ f.bindings.entries, e.2.Objectless known

/-- The contexts and slots of an environment hold what a scope declares. -/
structure Holds (of : Kind → Value → Prop) (s : Scope) (e : Env) : Prop where
  contexts : ∀ n k, s.context? n = some k → of k (e.context n)
  slots : ∀ f ∈ s.frames, ∀ name n k origin, (name, .slot n k origin) ∈ f.bindings.entries → of k (e.slot n)

def Fits (known : EnumType → Prop) (s : Scope) (e : Env) : Prop := s.Holds (Kind.Fits known e.world) e

/-- The contexts and slots that a scope declares are those of a ledger, and no definition becomes a variable. -/
structure Declares (known : EnumType → Prop) (l : Ledger) (s : Scope) : Prop where
  slots : s.slots = l.slots.length
  contexts : s.kinds = l.contexts
  values : ∀ f ∈ s.frames, ∀ name n k origin, (name, .slot n k origin) ∈ f.bindings.entries →
    l.slots[n]? = some (.value k)
  kinds : l.All (Kind.Over known)
  binders : ∀ f ∈ s.frames, f.binder ≠ .dynamic

namespace Objectless

theorem admits (hc : c.Objectless known) {n : Names} (hn : n.scope.Objectless known) (strict : Bool) :
    (c.settingAt n strict).Admits (n.scope.Holds Has) known := by
  refine ⟨hc.names, hc.types, hc.resolvers, hn.contexts, fun e he => he.contexts, ?_,
    fun e w he => ⟨he.contexts, he.slots⟩⟩
  rintro f hf ⟨name, b⟩ hb
  have hbinding := hn.bindings f hf _ hb
  cases b with
  | slot m k origin => exact ⟨hbinding, fun e he => he.slots f hf name m k origin hb⟩
  | «variable» i x k => exact hbinding
  | fragment g => exact hbinding.elim
  | hidden => trivial

variable {s : Scope} (hs : s.Objectless known)
include hs

theorem holds_imp {of of' : Kind → Value → Prop} {e : Env} (h : ∀ k v, k.Over known → of k v → of' k v)
    (he : s.Holds of e) : s.Holds of' e := by
  refine ⟨fun n k hk => ?_, fun f hf name n k origin hb => ?_⟩
  · obtain ⟨f, hf, rfl⟩ := Option.map_eq_some_iff.1 hk
    exact h _ _ (hs.contexts f (List.mem_of_getElem? hf)) (he.contexts n _ hk)
  · exact h _ _ (hs.bindings f hf _ hb) (he.slots f hf name n k origin hb)

theorem fits_iff (hnames : EnumType.Distinct known) (e : Env) : s.Fits known e ↔ s.Holds Has e :=
  ⟨hs.holds_imp fun _ _ hk => (Kind.fits_iff hnames hk).1, hs.holds_imp fun _ _ hk => (Kind.fits_iff hnames hk).2⟩

theorem sound {l : Ledger} (hl : s.Declares known l) : (Content.typed h known).Sound l s where
  slots := hl.slots
  contexts := hl.contexts
  kinds := hl.kinds
  frames f hf := by
    refine ⟨fun hd => absurd hd (hl.binders f hf), ?_⟩
    rintro ⟨name, b⟩ hb
    have hbinding := hs.bindings f hf _ hb
    cases b with
    | slot n k origin => exact hl.values f hf name n k origin hb
    | «variable» i x k => exact hbinding
    | fragment g => exact hbinding.elim
    | hidden => trivial

end Objectless

end Scope

/-- Kinds are sound: what an expression is compiled to returns values of its kind only, where contexts and slots hold
values of theirs, and they do again when it has run. So it is in every scope without fragments, and wherever compiling
has come to from such a scope, whichever fragments were defined on the way and are called; and the contexts and slots
hold values of their kinds again when that has run which was compiled before it. -/
theorem Setting.elaborate_inhabits (hc : c.Objectless known) :
    (∀ n : Names, n.scope.Objectless known → ∀ strict x t, (c.settingAt n strict).elaborate x = .ok t →
      ∀ env env' v, n.scope.Fits known env → t.code.run c.host env = (.ok v, env') →
        n.scope.Fits known env' ∧ ∀ w, Inhabits w t.kind v) ∧
    ∀ (n m m' : Names) (l : Ledger) (source text : List Char) (pos pos' : Nat) (b : Body),
      n.scope.Objectless known → n.scope.Declares known l →
      Compile.Reaches .standard c (Node.read Directives.standard pos source) n m →
      Compile.body .standard (Node.read Directives.standard pos' text) c m = .ok (b, m') →
      ∃ l' : Ledger, m'.scope.Declares known l' ∧ m'.scope.kinds = m.scope.kinds ∧
        (∀ env env', l'.Fits known env → Step.runAll c.host b env = (.ok (), env') → l'.Fits known env') ∧
        ∀ strict x t, (c.settingAt m' strict).elaborate x = .ok t →
          ∀ env env' v, l'.Fits known env → t.code.run c.host env = (.ok v, env') →
            l'.Fits known env' ∧ ∀ w, Inhabits w t.kind v := by
  constructor
  · intro n hn strict x t ht env env' v henv hrun
    rw [hn.fits_iff hc.names] at henv ⊢
    obtain ⟨henv', hv⟩ := ((hn.admits hc strict).elaborate x t ht).2 henv hrun
    exact ⟨henv', fun w => hv.inhabits⟩
  intro n m m' l source text pos pos' b hn hl hm hb
  have hlawful := Content.lawful_typed hc
  have hordinary (pos : Nat) (cs : List Char) := Node.ordinary_read Directives.standard pos cs
  obtain ⟨l₁, hm⟩ := hlawful.reached hc.blameless hm (hordinary pos source) (hn.sound hl)
  obtain ⟨l', hl', hm', hsteps⟩ := hlawful.body hc.blameless (hordinary pos' text) hm hb
  have hfits := hm'.kinds.fits_iff hc.names
  have hvalues := fun f hf name n k origin hbound => (hm'.frames f hf).bindings (name, .slot n k origin) hbound
  refine ⟨l', ⟨hm'.slots, hm'.contexts, hvalues, hm'.kinds, fun f hf => (hm'.frames f hf).binder⟩,
    hm'.contexts.trans (hl'.contexts.trans hm.contexts.symm), ?_, ?_⟩
  · intro env env' henv hrun
    rw [hfits] at henv ⊢
    exact (Content.leads_steps hsteps (.refl l') henv hrun).1
  · intro strict x t ht env env' v henv hrun
    rw [hfits] at henv ⊢
    obtain ⟨henv', hv⟩ := (hlawful.elaborate hm' ht).2 l' (.refl l') henv hrun
    exact ⟨henv', fun w => hv.inhabits⟩

namespace Shades

def shade : EnumType := ⟨⟨some "ink", "Shade"⟩, .u8, ⟨[("Light", 0), ("Dark", 7)]⟩⟩

def compiler : Compiler := ⟨⟨""⟩, .empty, .empty, ⟨[("ink.Shade", .enum shade)]⟩, [], .default⟩

def names : Names := ⟨.init .empty .empty (.list (.enum shade)), ["ink"]⟩

def picked : Expr :=
  .choice
    (.binary .eq (.call (.name "mark" default) [.name "pick" default] default)
      (.literal (.text "!") default) default)
    (.index (.context 0 default) (.name "pick" default) default)
    (.member (.name "Shade" default) "Light" default default) default

theorem objectless : compiler.Objectless (· = shade) where
  names := by
    rintro _ _ rfl rfl -
    rfl
  types := by
    intro entry hentry
    obtain rfl := List.mem_singleton.1 hentry
    exact ⟨shade, rfl, rfl⟩
  resolvers := rfl

theorem objectless_names : names.scope.Objectless (· = shade) where
  contexts := List.forall_mem_singleton.2 rfl
  bindings := List.forall_mem_singleton.2 (List.forall_mem_nil _)

theorem declares_names : names.scope.Declares (· = shade) ⟨[], [.list (.enum shade)]⟩ where
  slots := rfl
  contexts := rfl
  values := List.forall_mem_singleton.2 fun _ _ _ _ h => absurd h List.not_mem_nil
  kinds := ⟨List.forall_mem_nil _, List.forall_mem_singleton.2 rfl⟩
  binders := List.forall_mem_singleton.2 (by decide)

end Shades

theorem Ledger.fits_fresh {l : Ledger} {kind : Kind} (hl : l.contexts = [kind]) (hkind : kind.Over known) {v : Value}
    (hv : Has kind v) (slots : Nat) (w : World) : l.Fits known (.init v slots w) := by
  refine ⟨hl ▸ .cons ⟨hv.inhabits, fun t ht => hv.known_of_enumAt hkind ht⟩ nofun, fun n d _ => ?_⟩
  rw [Env.slot_init]
  cases d with
  | value k => exact ⟨.null, nofun⟩
  | contexts ks => exact nofun

/-- The fragment fills the slot before the slot is read. -/
theorem Setting.elaborate_inhabits_shades :
    let c : Compiler := Shades.compiler
    let source := "$$#define mark(x)$$$$#define pick=1$$!$$/define$$".toList
    let shades : Value := .list [.enum Shades.shade 0, .enum Shades.shade 7]
    ∃ b m t env e env', Compile.body .standard (Node.read Directives.standard 0 source) c Shades.names = .ok (b, m) ∧
      Step.runAll c.host b (.init shades 3 .empty) = (.ok (), env) ∧
      (c.settingAt m true).elaborate Shades.picked = .ok t ∧ t.kind == .enum Shades.shade ∧
      t.code.run c.host env = (.ok (.enum e 7), env') ∧ Inhabits env'.world t.kind (.enum e 7) := by
  intro c source shades
  have hrun : ((Compile.body .standard (Node.read Directives.standard 0 source) c Shades.names).toOption.bind fun r =>
      ((c.settingAt r.2 true).elaborate Shades.picked).toOption.bind fun t =>
        (Step.runAll c.host r.1 (.init shades 3 .empty)).1.toOption.bind fun _ =>
          (t.code.run c.host (Step.runAll c.host r.1 (.init shades 3 .empty)).2).1.toOption.map fun v =>
            (t.kind == .enum Shades.shade) && (v.kind .empty == .enum Shades.shade) && v.toInt? == some 7) =
      some true := by decide +kernel
  obtain ⟨⟨b, m⟩, hb, hrun⟩ := Option.bind_eq_some_iff.1 hrun
  obtain ⟨t, ht, hrun⟩ := Option.bind_eq_some_iff.1 hrun
  obtain ⟨_, henv, hrun⟩ := Option.bind_eq_some_iff.1 hrun
  obtain ⟨v, hv, hrun⟩ := Option.map_eq_some_iff.1 hrun
  obtain ⟨hkinds, hn⟩ := Bool.and_eq_true_iff.1 hrun
  obtain ⟨hkind, hkind'⟩ := Bool.and_eq_true_iff.1 hkinds
  have hb := ok_of_toOption hb
  have ht := ok_of_toOption ht
  have henv : Step.runAll c.host b (.init shades 3 .empty) = (.ok (), _) := Prod.ext (ok_of_toOption henv) rfl
  have hv : t.code.run c.host _ = (.ok v, _) := Prod.ext (ok_of_toOption hv) rfl
  obtain ⟨l, hl, hkinds, hsteps, hyields⟩ := (elaborate_inhabits Shades.objectless).2 _ _ _ _ [] _ 0 0 b
    Shades.objectless_names Shades.declares_names (.here _ _) hb
  have hshades : Has (.list (.enum Shades.shade)) shades :=
    .list (List.forall_mem_cons.2 ⟨.enum _ 0, List.forall_mem_singleton.2 (.enum _ 7)⟩)
  have hfresh : l.Fits (· = Shades.shade) (.init shades 3 .empty) :=
    l.fits_fresh (hl.contexts.symm.trans hkinds) (by rfl) hshades 3 .empty
  have hinhabits := (hyields true _ t ht _ _ _ (hsteps _ _ hfresh henv) hv).2
  cases v with
  | enum e n =>
    obtain rfl : n = 7 := Option.some.inj (eq_of_beq hn)
    exact ⟨b, m, t, _, e, _, hb, henv, ht, hkind, hv, hinhabits _⟩
  | int => cases hkind'
  | _ => cases hn

end Stencil
