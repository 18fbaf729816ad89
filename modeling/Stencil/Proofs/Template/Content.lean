import Stencil.Proofs.Template.Lets
/-!
What holds of everything that a compiler makes. It is stated under a ledger of what was declared on the way: slots are
given out for one use each, so that what a fragment was compiled to still is as it has to be wherever it is called.
-/
set_option autoImplicit false

namespace Stencil

/-- What a slot is kept for: values of a kind, or the contexts around a fragment, which are of kinds that are given
from the innermost on. -/
inductive SlotKind where
  | value (kind : Kind)
  | contexts (kinds : List Kind)

def SlotKind.All (p : Kind → Prop) : SlotKind → Prop
  | .value kind => p kind
  | .contexts kinds => ∀ kind ∈ kinds, p kind

/-- What was declared where compiling has come to: what the slots are kept for, and the kinds of the contexts around,
from the innermost on. -/
structure Ledger where
  slots : List SlotKind
  contexts : List Kind

namespace Ledger

variable {l l' l'' : Ledger}

def enter (l : Ledger) (kind : Kind) : Ledger := ⟨l.slots, kind :: l.contexts⟩

def add (l : Ledger) (d : SlotKind) : Ledger := ⟨l.slots ++ [d], l.contexts⟩

structure All (p : Kind → Prop) (l : Ledger) : Prop where
  slots : ∀ d ∈ l.slots, d.All p
  contexts : ∀ kind ∈ l.contexts, p kind

/-- More slots were given out, in the same contexts. -/
structure Grows (l l' : Ledger) : Prop where
  slots : l.slots <+: l'.slots
  contexts : l'.contexts = l.contexts

theorem Grows.refl (l : Ledger) : l.Grows l := ⟨List.prefix_refl _, rfl⟩

theorem Grows.trans (h : l.Grows l') (h' : l'.Grows l'') : l.Grows l'' :=
  ⟨h.slots.trans h'.slots, h'.contexts.trans h.contexts⟩

theorem Grows.enter (h : l.Grows l') (kind : Kind) : (l.enter kind).Grows (l'.enter kind) :=
  ⟨h.slots, congrArg (kind :: ·) h.contexts⟩

theorem Grows.getElem? (h : l.Grows l') {n : Nat} {d : SlotKind} (hn : l.slots[n]? = some d) :
    l'.slots[n]? = some d := by
  obtain ⟨more, hmore⟩ := h.slots
  rw [← hmore, List.getElem?_append_left (List.getElem?_eq_some_iff.1 hn).1]
  exact hn

end Ledger

namespace Scope

variable {s t : Scope} {Q : Frame → Prop}

def kinds (s : Scope) : List Kind := s.frames.map (·.context)

theorem exists_kinds (s : Scope) : ∃ ks, s.kinds = s.current.context :: ks := by
  unfold kinds frames current
  cases s.inner with
  | nil => exact ⟨[], rfl⟩
  | cons f fs => exact ⟨_, rfl⟩

theorem kinds_pop {kind : Kind} (h : t.kinds = kind :: s.kinds) : t.pop.kinds = s.kinds := by
  obtain ⟨ks, hks⟩ := s.exists_kinds
  obtain ⟨inner, root, slots⟩ := t
  cases inner with
  | nil =>
    rw [hks] at h
    cases h
  | cons f fs => exact (List.cons.inj h).2

theorem forall_modifyFrame (hs : ∀ f ∈ s.frames, Q f) (i : Nat) {g : Frame → Frame} (hg : ∀ f, Q f → Q (g f)) :
    ∀ f ∈ (s.modifyFrame i g).frames, Q f := by
  obtain ⟨hinner, hroot⟩ := List.forall_mem_append.1 hs
  have hmodified {fs : List Frame} (hfs : ∀ f ∈ fs, Q f) : ∀ f ∈ modifyInner i g fs, Q f := by
    induction fs with
    | nil => exact hfs
    | cons f fs ih =>
      obtain ⟨hf, hfs⟩ := List.forall_mem_cons.1 hfs
      rw [modifyInner]
      split
      · exact List.forall_mem_cons.2 ⟨hg f hf, hfs⟩
      · exact List.forall_mem_cons.2 ⟨hf, ih hfs⟩
  unfold modifyFrame
  split
  · exact List.forall_mem_append.2 ⟨hinner, List.forall_mem_singleton.2 (hg _ (hroot _ List.mem_cons_self))⟩
  · exact List.forall_mem_append.2 ⟨hmodified hinner, hroot⟩

end Scope

namespace Comparison

/-- Both make the same, which is related to itself. -/
def same (P : Comparison) : Comparison := { P with
  code := fun w k c c' => c' = c ∧ P.code w k c c
  slots := fun w ks ns ns' => ns' = ns ∧ P.slots w ks ns ns
  step := fun w s s' => s' = s ∧ P.step w s s
  steps := fun w ss ss' => ss' = ss ∧ P.steps w ss ss }

variable {P : Comparison} {w : P.Stage}

theorem typed_same {ts ts' : List Typed} (h : List.Forall₂ (P.same.typed w) ts ts') :
    ts' = ts ∧ List.Forall₂ (P.typed w) ts ts := by
  induction h with
  | nil => exact ⟨rfl, .nil⟩
  | @cons t t' _ _ ht _ ih =>
    obtain ⟨code, kind⟩ := t'
    obtain ⟨rfl, rfl, hcode⟩ := ht
    obtain ⟨rfl, hts⟩ := ih
    exact ⟨rfl, .cons ⟨rfl, hcode⟩ hts⟩

theorem Steps.same (hP : P.Steps) : P.same.Steps where
  context hk := ⟨rfl, hP.context hk⟩
  message w s := ⟨rfl, hP.message w s⟩
  toBool := by
    rintro w k _ c ⟨rfl, hc⟩
    exact ⟨rfl, hP.toBool hc⟩
  text w s := ⟨rfl, hP.text w s⟩
  emit := by
    rintro w k _ c ⟨rfl, hc⟩
    exact ⟨rfl, hP.emit hc⟩
  choose := by
    rintro w k _ c _ yes _ no ⟨rfl, hc⟩ ⟨rfl, hyes⟩ ⟨rfl, hno⟩
    exact ⟨rfl, hP.choose hc hyes hno⟩
  each := by
    rintro w k kind _ c _ body _ fallback ⟨rfl, hc⟩ hkind ⟨rfl, hbody⟩ ⟨rfl, hfallback⟩
    exact ⟨rfl, hP.each hc hkind hbody hfallback⟩
  inside := by
    rintro w kind _ c _ body ⟨rfl, hc⟩ ⟨rfl, hbody⟩
    exact ⟨rfl, hP.inside hc hbody⟩
  lets := by
    rintro w kind _ slots ts ts' _ body hkind ⟨rfl, hslots⟩ hts ⟨rfl, hbody⟩
    obtain ⟨rfl, hts⟩ := typed_same hts
    exact ⟨rfl, hP.lets hkind hslots hts hbody⟩
  assert := by
    rintro w k l _ c _ m ⟨rfl, hc⟩ ⟨rfl, hm⟩
    exact ⟨rfl, hP.assert hc hm⟩
  raise w s := ⟨rfl, hP.raise w s⟩
  raiseText := by
    rintro w _ body ⟨rfl, hbody⟩
    exact ⟨rfl, hP.raiseText hbody⟩
  rendered := by
    rintro w tag ⟨_, _⟩ ⟨compute, emit⟩ hname hpermits ⟨⟨rfl, hcompute⟩, rfl, hemit⟩
    exact ⟨rfl, hP.rendered (r := (compute, emit)) hname hpermits ⟨hcompute, hemit⟩⟩
  passCap n hname hpermits := ⟨rfl, hP.passCap n hname hpermits⟩
  tell s hname hpermits := ⟨rfl, hP.tell s hname hpermits⟩

end Comparison

/-- What is asked of the kinds, expressions and steps that a compiler makes under a ledger. -/
structure Content where
  kind : Kind → Prop
  variableKind : Kind → Prop
  /-- Whether definitions may become variables of a context. -/
  dynamic : Prop
  code : Ledger → Kind → Code → Prop
  step : Ledger → Step → Prop

namespace Content

variable (M : Content)

def steps (l : Ledger) (ss : List Step) : Prop := ∀ s ∈ ss, M.step l s

/-- A fragment runs in the contexts that its slot holds, with the innermost of them once more for its parameters. -/
def Binds (σ : List SlotKind) : Binding → Prop
  | .slot n k _ => σ[n]? = some (.value k)
  | .variable _ _ k => M.variableKind k
  | .fragment f => ∃ k ks, σ[f.snapshot]? = some (.contexts (k :: ks)) ∧
    (∀ n ∈ f.params, σ[n]? = some (.value .any)) ∧
    M.steps ⟨σ, k :: k :: ks⟩ f.compute ∧ M.steps ⟨σ, k :: k :: ks⟩ f.emit
  | .hidden => True

structure Covers (σ : List SlotKind) (f : Frame) : Prop where
  binder : f.binder = .dynamic → M.dynamic
  bindings : ∀ e ∈ f.bindings.entries, M.Binds σ e.2

/-- The names in force agree with a ledger, and what they stand for is as asked. -/
structure Sound (l : Ledger) (s : Scope) : Prop where
  slots : s.slots = l.slots.length
  contexts : s.kinds = l.contexts
  kinds : l.All M.kind
  frames : ∀ f ∈ s.frames, M.Covers l.slots f

open Diagnostic (Ordinary)

variable (c : Compiler)

/-- What is made is as asked; it is not compared. -/
def comparison : Comparison where
  first := c
  other := c
  offset := 0
  sited := False
  Stage := Ledger
  After := Ledger.Grows
  enter l kind _ := l.enter kind
  landing _ := .block
  admits := Ordinary
  permits _ _ := True
  free _ _ := True
  own l kind := M.kind kind ∧ ∃ ks, l.contexts = kind :: ks
  code l kind t _ := M.code l kind t
  slots l kinds ns _ := List.Forall₂ (fun n kind => l.slots[n]? = some (.value kind)) ns kinds
  step l s _ := M.step l s
  steps l ss _ := M.steps l ss

/-- The compiler goes along with itself, under a ledger that the names in force agree with. -/
def tandem : Tandem where
  toComparison := (M.comparison c).same
  scopes l s s' := s' = s ∧ M.Sound l s
  binds l b b' := b' = b ∧ M.Binds l.slots b
  value l kind n n' := n' = n ∧ l.slots[n]? = some (.value kind)
  contexts l n n' := n' = n ∧ l.slots[n]? = some (.contexts l.contexts)

/-- Everything is as asked that is made of parts that are. -/
structure Lawful : Prop extends (M.comparison c).Steps where
  code_mono {l l' : Ledger} {k : Kind} {t : Code} : l.Grows l' → M.code l k t → M.code l' k t
  step_mono {l l' : Ledger} {s : Step} : l.Grows l' → M.step l s → M.step l' s
  kind_of_code {l : Ledger} {k : Kind} {t : Code} : M.code l k t → M.kind k
  element {k k' : Kind} : M.kind k → c.host.element? c.world k = some k' → M.kind k'
  any : M.kind .any
  variableKinds : M.dynamic → ∀ k, M.variableKind k
  elaborate {l : Ledger} {n : Names} {strict : Bool} {x : Expr} {t : Typed} : M.Sound l n.scope →
    (c.settingAt n strict).elaborate x = .ok t → M.code l t.kind t.code
  setSlot {l : Ledger} {k : Kind} {n : Nat} {t : Code} : l.slots[n]? = some (.value k) → M.code l k t →
    M.step l (.setSlot n t)
  setVariable {l : Ledger} {k : Kind} {t : Code} (frame : Nat) (name : String) : M.dynamic → M.code l k t →
    M.step l (.setVariable frame name t)
  unsetVariable (l : Ledger) (frame : Nat) (name : String) : M.dynamic → M.step l (.unsetVariable frame name)
  snapshot {l : Ledger} {n : Nat} : l.slots[n]? = some (.contexts l.contexts) → M.step l (.snapshot n)

variable {M c} {l l' : Ledger} {s : Scope} {σ σ' : List SlotKind} {kind : Kind} {binder : BinderKind} {b : Binding}

theorem Lawful.steps_mono (hM : M.Lawful c) {ss : List Step} (h : l.Grows l') (hss : M.steps l ss) :
    M.steps l' ss :=
  fun s hs => hM.step_mono h (hss s hs)

theorem Binds.mono (hM : M.Lawful c) (hσ : σ <+: σ') (hb : M.Binds σ b) : M.Binds σ' b := by
  have hgrows (ks : List Kind) : Ledger.Grows ⟨σ, ks⟩ ⟨σ', ks⟩ := ⟨hσ, rfl⟩
  cases b with
  | slot n k o => exact (hgrows []).getElem? hb
  | «variable» frame name k => exact hb
  | fragment f =>
    obtain ⟨k, ks, hsnapshot, hparams, hcompute, hemit⟩ := hb
    exact ⟨k, ks, (hgrows []).getElem? hsnapshot, fun n hn => (hgrows []).getElem? (hparams n hn),
      hM.steps_mono (hgrows _) hcompute, hM.steps_mono (hgrows _) hemit⟩
  | hidden => trivial

namespace Sound

theorem modifyFrame (hs : M.Sound l s) (i : Nat) {g : Frame → Frame} (hshape : ∀ f, (g f).shape = f.shape)
    (hg : ∀ f, M.Covers l.slots f → ∀ e ∈ (g f).bindings.entries, M.Binds l.slots e.2) :
    M.Sound l (s.modifyFrame i g) where
  slots := by
    unfold Scope.modifyFrame
    split
    · exact hs.slots
    · exact hs.slots
  contexts := by
    have hkinds := congrArg (List.map Prod.fst) (s.shape_modifyFrame i hshape)
    rw [Scope.shape, Scope.shape, List.map_map, List.map_map] at hkinds
    exact hkinds.trans hs.contexts
  kinds := hs.kinds
  frames := by
    refine Scope.forall_modifyFrame hs.frames i fun f hf => ⟨?_, hg f hf⟩
    rw [show (g f).binder = f.binder from congrArg Prod.snd (hshape f)]
    exact hf.binder

theorem declare (hs : M.Sound l s) (i : Nat) (name : String) (hb : M.Binds l.slots b) :
    M.Sound l (s.declare i name b) := by
  refine hs.modifyFrame i (fun _ => rfl) fun f hf e he => ?_
  obtain he | rfl := Table.mem_set he
  · exact hf.bindings e he
  · exact hb

theorem remove (hs : M.Sound l s) (i : Nat) (cs : Bool) (name : String) : M.Sound l (s.remove i cs name) := by
  unfold Scope.remove
  split
  · exact hs.modifyFrame i (fun _ => rfl) fun f hf e he => hf.bindings e (List.mem_filter.1 he).1
  · exact hs

theorem push (hs : M.Sound l s) (hkind : M.kind kind) (hbinder : binder ≠ .dynamic) :
    M.Sound (l.enter kind) (s.push kind binder) where
  slots := hs.slots
  contexts := congrArg (kind :: ·) hs.contexts
  kinds := ⟨hs.kinds.slots, List.forall_mem_cons.2 ⟨hkind, hs.kinds.contexts⟩⟩
  frames := List.forall_mem_cons.2 ⟨⟨fun h => absurd h hbinder, fun _ he => absurd he List.not_mem_nil⟩, hs.frames⟩

/-- After a frame was left, what was declared inside is still kept for the same. -/
theorem pop {t : Scope} (hs : M.Sound l s) (ht : M.Sound l' t) (h : (l.enter kind).Grows l') :
    ∃ l'', l.Grows l'' ∧ M.Sound l'' t.pop ∧ l' = l''.enter kind := by
  obtain ⟨σ, ks⟩ := l'
  obtain rfl : ks = kind :: l.contexts := h.contexts
  obtain ⟨hinner, hroot⟩ := List.forall_mem_append.1 ht.frames
  refine ⟨⟨σ, l.contexts⟩, ⟨h.slots, rfl⟩, ⟨ht.slots, ?_, ⟨ht.kinds.slots, hs.kinds.contexts⟩, ?_⟩, rfl⟩
  · exact (Scope.kinds_pop (ht.contexts.trans (congrArg _ hs.contexts.symm))).trans hs.contexts
  · exact List.forall_mem_append.2 ⟨fun f hf => hinner f (List.mem_of_mem_drop hf), hroot⟩

theorem dynamic (hs : M.Sound l s) {i : Nat} (hi : s.binder? i = some .dynamic) : M.dynamic := by
  obtain ⟨f, hf, hbinder⟩ := Option.map_eq_some_iff.1 hi
  exact (hs.frames f (Scope.mem_frames_of_frame? hf)).binder hbinder

theorem allocate (hM : M.Lawful c) (hs : M.Sound l s) {d : SlotKind} (hd : d.All M.kind) :
    M.Sound (l.add d) s.allocate.2 ∧ (l.add d).slots[s.slots]? = some d := by
  refine ⟨⟨?_, hs.contexts, ⟨?_, hs.kinds.contexts⟩, fun f hf => ?_⟩, ?_⟩
  · rw [show s.allocate.2.slots = s.slots + 1 from rfl, hs.slots, Ledger.add, List.length_append]
    rfl
  · exact List.forall_mem_append.2 ⟨hs.kinds.slots, List.forall_mem_singleton.2 hd⟩
  · obtain ⟨hbinder, hbindings⟩ := hs.frames f hf
    exact ⟨hbinder, fun e he => (hbindings e he).mono hM (List.prefix_append _ _)⟩
  · rw [hs.slots]
    exact List.getElem?_concat_length

end Sound

theorem slots_of_any {ns : List Nat} {kinds : List Kind} (h : (M.comparison c).slots l kinds ns ns)
    (hkinds : ∀ kind ∈ kinds, kind = .any) : ∀ n ∈ ns, l.slots[n]? = some (.value .any) := by
  induction h with
  | nil => exact fun _ hn => absurd hn List.not_mem_nil
  | cons hn _ ih =>
    obtain ⟨rfl, hrest⟩ := List.forall_mem_cons.1 hkinds
    exact List.forall_mem_cons.2 ⟨hn, ih hrest⟩

theorem codes_of_typed {ts ts' : List Typed} (h : List.Forall₂ ((M.comparison c).typed l) ts ts') :
    ∀ t ∈ ts, M.code l t.kind t.code := by
  induction h with
  | nil => exact fun _ ht => absurd ht List.not_mem_nil
  | cons ht _ ih => exact List.forall_mem_cons.2 ⟨ht.2, ih⟩

theorem Lawful.elaborates (hM : M.Lawful c) (hc : c.Blameless) {n : Names} (hn : M.Sound l n.scope) (strict : Bool)
    (e : Expr) : Meets Ordinary True ((M.tandem c).typed l) ((c.settingAt n strict).elaborate e)
      ((c.settingAt n strict).elaborate e) := by
  refine Tracks.meets (fun t ht => ⟨t, ht, rfl, rfl, hM.elaborate hn ht⟩) ?_
  exact Setting.Blameless.elaborate (s := c.settingAt n strict) hc e

theorem Lawful.tandem (hM : M.Lawful c) (hc : c.Blameless) : (M.tandem c).Lawful where
  toSteps := hM.toSteps.same
  refl := .refl
  trans := .trans
  landing_after _ := rfl
  landing_enter _ _ _ _ := rfl
  landing_block _ _ := rfl
  own_after h hkind := ⟨hkind.1, hkind.2.imp fun _ hks => h.contexts.trans hks⟩
  code_after h hc := ⟨hc.1, hM.code_mono h hc.2⟩
  step_after h hs := ⟨hs.1, hM.step_mono h hs.2⟩
  steps_after h hss := ⟨hss.1, hM.steps_mono h hss.2⟩
  inner_after h hss := ⟨hss.1, hM.steps_mono (h.enter _) hss.2⟩
  nil _ := ⟨rfl, fun _ h => absurd h List.not_mem_nil⟩
  cons := by
    rintro l _ s _ ss ⟨rfl, hs⟩ ⟨rfl, hss⟩
    exact ⟨rfl, List.forall_mem_cons.2 ⟨hs, hss⟩⟩
  ofSteps := by
    rintro l _ ss ⟨rfl, hss⟩
    exact ⟨rfl, fun s hs => hss s (List.mem_filter.1 hs).1⟩
  ordinary h _ := h
  host := rfl
  world := rfl
  snippet _ := congrArg _ (Span.shift_zero _)
  lenientPredicates := rfl
  caseSensitive := rfl
  free _ _ := trivial
  own := by
    rintro l _ s ⟨rfl, hs⟩
    obtain ⟨ks, hks⟩ := s.exists_kinds
    rw [hs.contexts] at hks
    exact ⟨⟨hs.kinds.contexts _ (hks ▸ List.mem_cons_self), ks, hks⟩, rfl⟩
  depth hs := congrArg Scope.depth hs.1
  balanced := by
    rintro l l' _ s _ t ⟨rfl, hs⟩ hl ⟨rfl, ht⟩
    have hlength := congrArg List.length (ht.contexts.trans (hl.contexts.trans hs.contexts.symm))
    exact .inl (by simpa [Scope.kinds, Scope.length_frames] using hlength)
  declarationFrame hs := congrArg Scope.declarationFrame hs.1
  binder? i hs := congrArg (Scope.binder? · i) hs.1
  letOwner? cs name hs := congrArg (Scope.letOwner? · cs name) hs.1
  lookup := by
    rintro l _ s cs name ⟨rfl, -⟩
    generalize s.lookup _ _ cs name = found
    cases found with
    | none => exact .none
    | some x => exact .some ⟨rfl, .refl x.2⟩
  push := by
    rintro l _ s kind binder henters ⟨rfl, hs⟩
    obtain ⟨hkind, hbinder⟩ : M.kind kind ∧ binder ≠ .dynamic := by
      rcases henters with (⟨rfl, k, t, _, ht, helement⟩ | ⟨rfl, t, _, ht⟩) | ⟨hkind, rfl | rfl⟩
      · exact ⟨hM.element (hM.kind_of_code ht.2) helement, nofun⟩
      · exact ⟨hM.kind_of_code ht.2, nofun⟩
      · exact ⟨hkind.1, nofun⟩
      · exact ⟨hkind.1, nofun⟩
    exact ⟨rfl, hs.push hkind hbinder⟩
  pop := by
    rintro l l' s _ _ t kind binder ⟨-, hs⟩ hl ⟨rfl, ht⟩
    obtain ⟨l'', hl'', hpop, rfl⟩ := hs.pop ht hl
    exact ⟨l'', hl'', ⟨rfl, hpop⟩, rfl⟩
  declare := by
    rintro l _ s _ b i name ⟨rfl, hs⟩ ⟨rfl, hb⟩
    exact ⟨rfl, hs.declare i name hb⟩
  remove := by
    rintro l _ s i cs name ⟨rfl, hs⟩
    exact ⟨rfl, hs.remove i cs name⟩
  allocateValue := by
    rintro l _ s kind hkind ⟨rfl, hs⟩
    have hkind : M.kind kind := by
      rcases hkind with rfl | ⟨_, _, _, ht⟩
      · exact hM.any
      · exact hM.kind_of_code ht.2
    obtain ⟨hs, hn⟩ := hs.allocate hM (d := .value kind) hkind
    exact ⟨l.add _, ⟨List.prefix_append _ _, rfl⟩, ⟨rfl, hs⟩, rfl, hn⟩
  allocateContexts := by
    rintro l _ s ⟨rfl, hs⟩
    obtain ⟨hs, hn⟩ := hs.allocate hM (d := .contexts l.contexts) hs.kinds.contexts
    exact ⟨l.add _, ⟨List.prefix_append _ _, rfl⟩, ⟨rfl, hs⟩, rfl, hn⟩
  value_after h hn := ⟨hn.1, h.getElem? hn.2⟩
  contexts_after h hn := ⟨hn.1, h.contexts ▸ h.getElem? hn.2⟩
  slots_nil _ := ⟨rfl, .nil⟩
  slots_cons := by
    rintro l kind kinds _ n _ ns ⟨rfl, hn⟩ ⟨rfl, hns⟩
    exact ⟨rfl, .cons hn hns⟩
  slots_after h hns := ⟨hns.1, hns.2.imp fun _ _ hn => h.getElem? hn⟩
  slots_leave h := h
  ofSlot := by
    rintro l kind _ n origin ⟨rfl, hn⟩
    exact ⟨rfl, hn⟩
  ofVariable _ kind hs hi := ⟨rfl, hM.variableKinds (hs.2.dynamic hi) kind⟩
  ofFragment := by
    rintro l kind kinds _ n _ ns _ compute _ emit name ⟨-, ks, hks⟩ ⟨rfl, hn⟩ hkinds ⟨rfl, hns⟩ ⟨rfl, hcompute⟩
      ⟨rfl, hemit⟩
    change M.steps ⟨l.slots, kind :: l.contexts⟩ _ at hcompute hemit
    rw [hks] at hn hcompute hemit
    exact ⟨rfl, kind, ks, hn, slots_of_any hns hkinds, hcompute, hemit⟩
  ofHidden _ := ⟨rfl, trivial⟩
  setSlot := by
    rintro l kind _ n _ t ⟨rfl, hn⟩ ⟨rfl, ht⟩
    exact ⟨rfl, hM.setSlot hn ht⟩
  setVariable := by
    rintro l s s' tag name kind _ t hs hdynamic - - ⟨rfl, ht⟩
    exact ⟨rfl, hM.setVariable _ name (hs.2.dynamic hdynamic) ht⟩
  unsetVariable hs hdynamic _ _ := ⟨rfl, hM.unsetVariable _ _ _ (hs.2.dynamic hdynamic)⟩
  snapshot := by
    rintro l _ n ⟨rfl, hn⟩
    exact ⟨rfl, hM.snapshot hn⟩
  elaborate := by
    rintro l n ⟨_, _⟩ strict e ⟨⟨rfl, hn⟩, rfl⟩ - -
    rw [show e.shift (M.tandem c).offset = e from e.shift_zero]
    exact hM.elaborates hc hn _ e

variable {ns : List Node} {n m : Names}

theorem Lawful.body (hM : M.Lawful c) (hc : c.Blameless) (hns : ∀ d ∈ Node.faultsAll ns, d.Ordinary)
    (hn : M.Sound l n.scope) {b : Body} (hb : Compile.body .standard ns c n = .ok (b, m)) :
    ∃ l', l.Grows l' ∧ M.Sound l' m.scope ∧ M.steps l' b := by
  have hT := hM.tandem hc
  have hnodes := Compile.kept_nodes hT.kept (fun _ _ => trivial) ns False.elim (fun d hd _ => hns d hd) l
  have hbody := hT.calculus.bind hnodes fun _ _ _ _ hss => hT.calculus.pure (hT.ofSteps hss)
  obtain ⟨_, -, l', hl', hm, hsteps⟩ := (hbody n n ⟨⟨rfl, hn⟩, rfl⟩).tracks _ hb
  exact ⟨l', hl', hm.1.2, hsteps.2⟩

/-- Names that agree with a ledger lead only to such names. -/
theorem Lawful.reached (hM : M.Lawful c) (hc : c.Blameless) (h : Compile.Reaches .standard c ns n m)
    (hns : ∀ d ∈ Node.faultsAll ns, d.Ordinary) (hn : M.Sound l n.scope) : ∃ l', M.Sound l' m.scope := by
  have hT := hM.tandem hc
  have hinternal : ¬ Ordinary (.of (.unbalanced "" 0 0) ⟨0, 0⟩) := fun h => h rfl
  refine h.keeps (fun s => ∃ l, M.Sound l s) hinternal ?_ ?_ hns ⟨l, hn⟩
  · rintro nd n step n' hfaults ⟨l, hs⟩ hnd
    have hnode := Compile.kept_node hT.kept (fun _ _ => trivial) nd False.elim (fun d hd _ => hfaults d hd) l
    obtain ⟨_, -, l', -, hm, -⟩ := (hnode n n ⟨⟨rfl, hs⟩, rfl⟩).tracks _ hnd
    exact ⟨l', hm.1.2⟩
  · rintro tag before after control span text n spy hfaults hspy ⟨l, hs⟩
    obtain ⟨hbefore, hafter⟩ := List.forall_mem_append.1 hfaults
    have hlike (r : Landing) : Section.Like (M.tandem c).simulation r ⟨control, span, text, spy⟩
        ⟨control, span, text, spy⟩ := by
      refine ⟨(Tag.map_shift_zero _).symm, fun _ _ => False.elim, rfl, rfl, fun l _ => ?_⟩
      rintro ⟨s, namespaces⟩ ⟨_, _⟩ ⟨⟨rfl, hs⟩, rfl⟩
      change Meets _ True _ (spy c _) (spy c _)
      rw [hspy _ ⟨l, hs⟩]
      exact .ok ⟨l, .refl l, ⟨⟨rfl, hs⟩, rfl⟩, hT.nil l⟩
    have hsections {ss : List DocSection} (hss : ∀ d ∈ DocSection.faults ss, d.Ordinary) (r : Landing) :=
      Compile.kept_sections hT.kept (fun _ _ => trivial) ss False.elim (fun d hd _ => hss d hd) r
    have hshown : (M.tandem c).Shows tag := False.elim
    have hdirective := Compile.kept_directive (w := l) hT.kept hshown trivial
      (.inr (List.rel_append (hsections hbefore _) (.cons (hlike _) (hsections hafter _))))
    exact (hdirective n n ⟨⟨rfl, hs⟩, rfl⟩).failsOnly

end Content

end Stencil
