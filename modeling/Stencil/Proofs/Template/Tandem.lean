import Stencil.Proofs.Scope.Alike
import Stencil.Proofs.Template.Comparison
/-!
Two compilers that go through a text together. Where the names in force are related at every stage, what both make is
related, and the first ends in a fault only where that is admitted.
-/
set_option autoImplicit false

namespace Stencil

/-- Bindings of which both or none may be removed. -/
inductive Binding.Akin : Binding → Binding → Prop
  | slot (n n' : Nat) (kind kind' : Kind) (origin : Origin) : Akin (.slot n kind origin) (.slot n' kind' origin)
  | ofVariable (i i' : Nat) (name name' : String) (kind kind' : Kind) :
    Akin (.variable i name kind) (.variable i' name' kind')
  | fragment (f f' : Fragment) : Akin (.fragment f) (.fragment f')
  | hidden : Akin .hidden .hidden

theorem Binding.Akin.refl (b : Binding) : b.Akin b := by
  cases b with
  | slot n kind origin => exact .slot ..
  | «variable» i name kind => exact .ofVariable ..
  | fragment f => exact .fragment ..
  | hidden => exact .hidden

theorem Binding.Alike.akin {l : Likeness} {σ : List SlotUse} {b b' : Binding} (h : Binding.Alike l σ b b') :
    b.Akin b' := by
  cases h with
  | slot => exact .slot ..
  | ofVariable => exact .ofVariable ..
  | fragment => exact .fragment ..
  | hidden => exact .hidden

structure Tandem extends Comparison where
  scopes : Stage → Scope → Scope → Prop
  binds : Stage → Binding → Binding → Prop
  /-- Slots that are kept for values of a kind. -/
  value : Stage → Kind → Nat → Nat → Prop
  /-- Slots that are kept for the contexts of a stage. -/
  contexts : Stage → Nat → Nat → Prop

namespace Tandem

variable (T : Tandem)

def Agree (w : T.Stage) (n n' : Names) : Prop := T.scopes w n.scope n'.scope ∧ n'.namespaces = n.namespaces

def rel {α α' : Type} (w : T.Stage) (R : T.Stage → α → α' → Prop) (x : Compile α) (y : Compile α') : Prop :=
  ∀ n n', T.Agree w n n' → Meets T.admits True (fun r r' => ∃ w', T.After w w' ∧ T.Agree w' r.2 r'.2 ∧ R w' r.1 r'.1)
    (x T.first n) (y T.other n')

abbrev simulation : Simulation := { T.toComparison with rel := T.rel }

def Enters (w : T.Stage) (kind : Kind) (binder : BinderKind) : Prop :=
  T.Opens w kind binder ∨ T.own w kind ∧ (binder = .lets ∨ binder = .parameters)

def Fills (kind : Kind) : Prop := kind = .any ∨ ∃ w c c', T.code w kind c c'

/-- Names stay related whatever a directive does to them. -/
structure Lawful : Prop extends T.toComparison.Stages where
  trans {u v w : T.Stage} : T.After u v → T.After v w → T.After u w
  caseSensitive : T.other.options.caseSensitive = T.first.options.caseSensitive
  free (w : T.Stage) (name : String) : T.free w name
  own {w : T.Stage} {s s' : Scope} : T.scopes w s s' →
    T.own w s.current.context ∧ s'.current.context = s.current.context
  depth {w : T.Stage} {s s' : Scope} : T.scopes w s s' → s'.depth = s.depth
  balanced {v w : T.Stage} {s s' t t' : Scope} : T.scopes v s s' → T.After v w → T.scopes w t t' →
    t.depth = s.depth ∨ ∀ d, T.admits d
  declarationFrame {w : T.Stage} {s s' : Scope} : T.scopes w s s' → s'.declarationFrame = s.declarationFrame
  binder? {w : T.Stage} {s s' : Scope} (i : Nat) : T.scopes w s s' → s'.binder? i = s.binder? i
  letOwner? {w : T.Stage} {s s' : Scope} (cs : Bool) (name : String) : T.scopes w s s' →
    s'.letOwner? cs name = s.letOwner? cs name
  lookup {w : T.Stage} {s s' : Scope} (cs : Bool) (name : String) : T.scopes w s s' →
    Option.Rel (fun x y => x.1 = y.1 ∧ x.2.Akin y.2) (s.lookup T.first.host T.first.world cs name)
      (s'.lookup T.first.host T.first.world cs name)
  push {w : T.Stage} {s s' : Scope} {kind : Kind} {binder : BinderKind} : T.Enters w kind binder → T.scopes w s s' →
    T.scopes (T.enter w kind binder) (s.push kind binder) (s'.push kind binder)
  pop {w w₁ : T.Stage} {s s' t t' : Scope} {kind : Kind} {binder : BinderKind} : T.scopes w s s' →
    T.After (T.enter w kind binder) w₁ → T.scopes w₁ t t' →
    ∃ w', T.After w w' ∧ T.scopes w' t.pop t'.pop ∧ w₁ = T.enter w' kind binder
  declare {w : T.Stage} {s s' : Scope} {b b' : Binding} (i : Nat) (name : String) : T.scopes w s s' →
    T.binds w b b' → T.scopes w (s.declare i name b) (s'.declare i name b')
  remove {w : T.Stage} {s s' : Scope} (i : Nat) (cs : Bool) (name : String) : T.scopes w s s' →
    T.scopes w (s.remove i cs name) (s'.remove i cs name)
  allocateValue {w : T.Stage} {s s' : Scope} {kind : Kind} : T.Fills kind → T.scopes w s s' →
    ∃ w', T.After w w' ∧ T.scopes w' s.allocate.2 s'.allocate.2 ∧ T.value w' kind s.slots s'.slots
  allocateContexts {w : T.Stage} {s s' : Scope} : T.scopes w s s' →
    ∃ w', T.After w w' ∧ T.scopes w' s.allocate.2 s'.allocate.2 ∧ T.contexts w' s.slots s'.slots
  value_after {v w : T.Stage} {kind : Kind} {n n' : Nat} : T.After v w → T.value v kind n n' → T.value w kind n n'
  contexts_after {v w : T.Stage} {n n' : Nat} : T.After v w → T.contexts v n n' → T.contexts w n n'
  slots_nil (w : T.Stage) : T.slots w [] [] []
  slots_cons {w : T.Stage} {kind : Kind} {kinds : List Kind} {n n' : Nat} {ns ns' : List Nat} :
    T.value w kind n n' → T.slots w kinds ns ns' → T.slots w (kind :: kinds) (n :: ns) (n' :: ns')
  slots_after {v w : T.Stage} {kinds : List Kind} {ns ns' : List Nat} : T.After v w → T.slots v kinds ns ns' →
    T.slots w kinds ns ns'
  slots_leave {w : T.Stage} {kind : Kind} {binder : BinderKind} {kinds : List Kind} {ns ns' : List Nat} :
    T.slots (T.enter w kind binder) kinds ns ns' → T.slots w kinds ns ns'
  ofSlot {w : T.Stage} {kind : Kind} {n n' : Nat} (origin : Origin) : T.value w kind n n' →
    T.binds w (.slot n kind origin) (.slot n' kind origin)
  ofVariable {w : T.Stage} {s s' : Scope} {i : Nat} (name : String) (kind : Kind) : T.scopes w s s' →
    s.binder? i = some .dynamic → T.binds w (.variable i name kind) (.variable i name kind)
  ofFragment {w : T.Stage} {kind : Kind} {kinds : List Kind} {n n' : Nat} {ns ns' : List Nat}
    {compute compute' emit emit' : Body} (name : String) : T.own w kind → T.contexts w n n' →
    (∀ k ∈ kinds, k = .any) → T.slots w kinds ns ns' → T.steps (T.enter w kind .parameters) compute compute' →
    T.steps (T.enter w kind .parameters) emit emit' →
    T.binds w (.fragment ⟨name, ns, n, compute, emit⟩) (.fragment ⟨name, ns', n', compute', emit'⟩)
  ofHidden (w : T.Stage) : T.binds w .hidden .hidden
  setSlot {w : T.Stage} {kind : Kind} {n n' : Nat} {c c' : Code} : T.value w kind n n' → T.code w kind c c' →
    T.step w (.setSlot n c) (.setSlot n' c')
  setVariable {w : T.Stage} {s s' : Scope} {tag : Tag} {name : String} {kind : Kind} {c c' : Code} :
    T.scopes w s s' → s.binder? s.declarationFrame = some .dynamic → T.permits (T.landing w) tag →
    tag.write? = some (.set name) → T.code w kind c c' →
    T.step w (.setVariable s.declarationFrame name c) (.setVariable s.declarationFrame name c')
  unsetVariable {w : T.Stage} {s s' : Scope} {tag : Tag} {name : String} :
    T.scopes w s s' → s.binder? s.declarationFrame = some .dynamic → T.permits (T.landing w) tag →
    tag.write? = some (.unset name) →
    T.step w (.unsetVariable s.declarationFrame name) (.unsetVariable s.declarationFrame name)
  snapshot {w : T.Stage} {n n' : Nat} : T.contexts w n n' → T.step w (.snapshot n) (.snapshot n')
  elaborate {w : T.Stage} {n n' : Names} {s : Bool → Bool} {e : Expr} : T.Agree w n n' →
    (s false = true → s true = true) → T.Within e →
    Meets T.admits True (T.typed w) ((T.first.settingAt n (s T.first.options.strict)).elaborate e)
      ((T.other.settingAt n' (s T.other.options.strict)).elaborate (e.shift T.offset))

namespace Lawful

variable {T} {w : T.Stage} {α α' : Type} {R : T.Stage → α → α' → Prop} {x : Compile α} {y : Compile α'}
  (hT : T.Lawful)
include hT

theorem calculus : T.simulation.Calculus where
  toStages := hT.toStages
  pure {_ _ w _ _ _} h := fun _ _ hn => .ok ⟨w, hT.refl w, hn, h⟩
  throw h := fun _ _ _ => .of_error h trivial
  bind hx hf := by
    intro n n' hn
    rw [Compile.bind_apply, Compile.bind_apply]
    refine (hx n n' hn).bind ?_
    rintro r r' ⟨w', hw', hr, hab⟩
    refine (hf w' hw' _ _ hab _ _ hr).imp ?_
    rintro q q' ⟨w'', hw'', h⟩
    exact ⟨w'', hT.trans hw' hw'', h⟩

/-! ### Reading -/

theorem read : T.simulation.looks w (fun c c' => c = T.first ∧ c' = T.other) read read :=
  fun _ _ hn => .ok ⟨w, hT.refl w, hn, rfl, rfl, rfl⟩

theorem scope : T.simulation.looks w (T.scopes w) Compile.scope Compile.scope :=
  fun _ _ hn => .ok ⟨w, hT.refl w, hn, rfl, hn.1⟩

theorem caseSensitively : T.simulation.looks w (fun cs cs' => cs = T.first.options.caseSensitive ∧ cs' = cs)
    Compile.caseSensitive Compile.caseSensitive :=
  fun _ _ hn => .ok ⟨w, hT.refl w, hn, rfl, rfl, hT.caseSensitive⟩

theorem contextKind :
    T.simulation.looks w (fun k k' => T.own w k ∧ k' = k) Compile.contextKind Compile.contextKind :=
  fun _ _ hn => .ok ⟨w, hT.refl w, hn, rfl, hT.own hn.1⟩

theorem setting (strict strict' : Bool) : T.simulation.looks w (fun st st' => ∃ n n', T.Agree w n n' ∧
      st = T.first.settingAt n strict ∧ st' = T.other.settingAt n' strict')
    (Compile.setting strict) (Compile.setting strict') :=
  fun n n' hn => .ok ⟨w, hT.refl w, hn, rfl, n, n', hn, rfl, rfl⟩

theorem elaborateWith {s : Bool → Bool} {e : Expr} (hmono : s false = true → s true = true) (he : T.Within e) :
    T.simulation.looks w (T.typed w) (Compile.elaborateWith (s T.first.options.strict) e)
      (Compile.elaborateWith (s T.other.options.strict) (e.shift T.offset)) := by
  refine hT.calculus.andThen (hT.setting _ _) ?_
  rintro _ _ ⟨n, n', hn, rfl, rfl⟩
  generalize hx : (T.first.settingAt n _).elaborate e = x
  generalize hy : (T.other.settingAt n' _).elaborate (e.shift T.offset) = y
  obtain ht | hd | ⟨hd, -⟩ := hx ▸ hy ▸ hT.elaborate hn hmono he
  · exact hT.calculus.pure ⟨rfl, ht⟩
  · exact hT.calculus.throw hd
  · exact hT.calculus.throw hd

theorem expectNotLet (name : String) {span : Span} (span' : Span) (hspan : T.Has span) :
    T.simulation.looks w (fun _ _ => T.free w name) (Directive.expectNotLet name span)
      (Directive.expectNotLet name span') := by
  unfold Directive.expectNotLet
  refine hT.calculus.andThen hT.scope fun s s' hs => hT.calculus.andThen hT.caseSensitively ?_
  rintro cs _ ⟨-, rfl⟩
  rw [hT.letOwner? _ name hs]
  exact Simulation.Calculus.either (fun _ => hT.calculus.refused rfl hspan) fun _ =>
    hT.calculus.pure ⟨rfl, hT.free w name⟩

theorem checked {x y : Compile Step} (fault fault' : Nat → Nat → Diagnostic) (h : T.simulation.rel w T.step x y) :
    T.simulation.rel w T.step (Compile.checked fault x) (Compile.checked fault' y) := by
  refine hT.calculus.andThen hT.scope fun s s' hs => hT.calculus.bind h fun w' hw' step step' hstep => ?_
  refine hT.calculus.andThen hT.scope fun t t' ht => ?_
  rw [hT.depth hs, hT.depth ht]
  exact Simulation.Calculus.either (fun _ => hT.calculus.pure hstep) fun hne =>
    hT.calculus.throw ((hT.balanced hs hw' ht).resolve_left hne _)

/-! ### Changing the names in force -/

theorem modifyScope {f g : Scope → Scope} (h : ∀ s s', T.scopes w s s' → T.scopes w (f s) (g s')) :
    T.simulation.looks w (fun _ _ => True) (Compile.modifyScope f) (Compile.modifyScope g) :=
  fun _ _ hn => .ok ⟨w, hT.refl w, ⟨h _ _ hn.1, hn.2⟩, rfl, trivial⟩

theorem declaring {b b' : Binding} (i : Nat) (name : String) (hb : T.binds w b b') :
    T.simulation.looks w (fun _ _ => True) (Compile.declare i name b) (Compile.declare i name b') :=
  hT.modifyScope fun _ _ hs => hT.declare i name hs hb

omit hT in
theorem allocate {R : T.Stage → Nat → Nat → Prop} (h : ∀ {s s'}, T.scopes w s s' →
      ∃ w', T.After w w' ∧ T.scopes w' s.allocate.2 s'.allocate.2 ∧ R w' s.slots s'.slots) :
    T.simulation.rel w R Compile.allocate Compile.allocate := by
  intro n n' hn
  obtain ⟨w', hw', hs, hR⟩ := h hn.1
  exact .ok ⟨w', hw', ⟨hs, hn.2⟩, hR⟩

theorem addNamespace (ns : String) :
    T.simulation.rel w (fun _ _ _ => True) (Compile.addNamespace ns) (Compile.addNamespace ns) := by
  refine hT.calculus.andThen hT.caseSensitively ?_
  rintro cs _ ⟨-, rfl⟩ n n' hn
  refine .ok ⟨w, hT.refl w, ?_, trivial⟩
  dsimp only
  rw [hn.2]
  split
  · exact hn
  · exact ⟨hn.1, rfl⟩

theorem withFrame {kind : Kind} {binder : BinderKind} {f : Nat → Compile α} {g : Nat → Compile α'}
    (henters : T.Enters w kind binder) (h : ∀ i, T.simulation.rel (T.enter w kind binder) R (f i) (g i)) :
    T.simulation.rel w (fun w' => R (T.enter w' kind binder)) (Compile.withFrame kind binder f)
      (Compile.withFrame kind binder g) := by
  intro n n' hn
  have hinside := h n.scope.depth ⟨n.scope.push kind binder, n.namespaces⟩ ⟨n'.scope.push kind binder, n'.namespaces⟩
    ⟨hT.push henters hn.1, hn.2⟩
  have happly {γ : Type} (f : Nat → Compile γ) (c : Compiler) (n : Names) : Compile.withFrame kind binder f c n =
      f n.scope.depth c ⟨n.scope.push kind binder, n.namespaces⟩ >>= fun r =>
        .ok (r.1, ⟨r.2.scope.pop, r.2.namespaces⟩) := rfl
  rw [happly, happly, hT.depth hn.1]
  refine hinside.bind ?_
  rintro r r' ⟨w₁, hw₁, hr, hab⟩
  obtain ⟨w', hw', hpop, rfl⟩ := hT.pop hn.1 hw₁ hr.1
  exact .ok ⟨w', hw', ⟨hpop, hr.2⟩, hab⟩

theorem declareSlots (i : Nat) (origin : Origin) {names : List (String × Kind)}
    (hnames : ∀ kind ∈ names.map Prod.snd, T.Fills kind) :
    T.simulation.rel w (fun w' => T.slots w' (names.map Prod.snd)) (Directive.declareSlots i origin names)
      (Directive.declareSlots i origin names) := by
  induction names generalizing w with
  | nil => exact hT.calculus.pure (hT.slots_nil w)
  | cons x names ih =>
    obtain ⟨name, kind⟩ := x
    obtain ⟨hkind, hnames⟩ := List.forall_mem_cons.1 hnames
    unfold Directive.declareSlots
    refine hT.calculus.bind (allocate (hT.allocateValue hkind)) fun w' _ n n' hn => ?_
    refine hT.calculus.andThen (hT.declaring i name (hT.ofSlot origin hn)) fun _ _ _ => ?_
    refine hT.calculus.bind (ih hnames) fun w'' hw'' ns ns' hns => ?_
    exact hT.calculus.pure (hT.slots_cons (hT.value_after hw'' hn) hns)

theorem slotsFrame {kind : Kind} {binder : BinderKind} (hkind : T.own w kind)
    (hbinder : binder = .lets ∨ binder = .parameters) (origin : Origin) {names : List (String × Kind)} (hnames : ∀ kind ∈ names.map Prod.snd, T.Fills kind)
    (hx : ∀ v, T.landing v = T.landing w → T.simulation.rel v R x y) :
    T.simulation.rel w (fun w' a b => T.slots w' (names.map Prod.snd) a.1 b.1 ∧ R (T.enter w' kind binder) a.2 b.2)
      (Compile.withFrame kind binder fun i => do
        let slots ← Directive.declareSlots i origin names
        return (slots, ← x))
      (Compile.withFrame kind binder fun i => do
        let slots ← Directive.declareSlots i origin names
        return (slots, ← y)) := by
  have hlanding := hT.landing_enter w kind (show binder ≠ .declarations by rcases hbinder with rfl | rfl <;> decide)
  have hinside (i : Nat) : T.simulation.rel (T.enter w kind binder)
      (fun w' a b => T.slots w' (names.map Prod.snd) a.1 b.1 ∧ R w' a.2 b.2)
      (do
        let slots ← Directive.declareSlots i origin names
        return (slots, ← x))
      (do
        let slots ← Directive.declareSlots i origin names
        return (slots, ← y)) := by
    refine hT.calculus.bind (hT.declareSlots i origin hnames) fun v hv slots slots' hslots => ?_
    refine hT.calculus.bind (hx v ((hT.landing_after hv).trans hlanding)) fun v' hv' a b hab => ?_
    exact hT.calculus.pure ⟨hT.slots_after hv' hslots, hab⟩
  refine hT.calculus.imp (hT.withFrame (.inr ⟨hkind, hbinder⟩) hinside) ?_
  exact fun _ _ _ h => ⟨hT.slots_leave h.1, h.2⟩

/-! ### Definitions -/

variable {tag : Tag} {name : String}

theorem bindValue (hpermits : T.permits (T.landing w) tag) (hwrite : tag.write? = some (.set name)) {t t' : Typed}
    (ht : T.typed w t t') : T.simulation.rel w T.step (Directive.bindValue name t) (Directive.bindValue name t') := by
  unfold Directive.bindValue
  refine hT.calculus.andThen hT.scope fun s s' hs => ?_
  dsimp only
  rw [hT.declarationFrame hs, hT.binder? _ hs, ht.1]
  split
  · next hdynamic =>
    refine hT.calculus.andThen (hT.declaring _ name (hT.ofVariable name t.kind hs hdynamic)) fun _ _ _ => ?_
    exact hT.calculus.pure (hT.setVariable hs hdynamic hpermits hwrite ht.2)
  · refine hT.calculus.bind (allocate (hT.allocateValue (.inr ⟨w, _, _, ht.2⟩))) fun w' hw' n n' hn => ?_
    refine hT.calculus.andThen (hT.declaring _ name (hT.ofSlot .definition hn)) fun _ _ _ => ?_
    exact hT.calculus.pure (hT.setSlot hn (hT.code_after hw' ht.2))

theorem fragment {params : List (String × Kind)} (hparams : ∀ kind ∈ params.map Prod.snd, kind = .any)
    {x y : Compile (Body × Body)} (hx : ∀ v, T.landing v = T.landing w → T.simulation.rel v T.parts x y) :
    T.simulation.rel w T.step (Directive.fragment name params x) (Directive.fragment name params y) := by
  unfold Directive.fragment
  refine hT.calculus.andThen hT.scope fun s s' hs => ?_
  dsimp only
  rw [hT.declarationFrame hs]
  refine hT.calculus.bind (allocate hT.allocateContexts) fun w₁ hw₁ n n' hn => ?_
  refine hT.calculus.andThen hT.contextKind ?_
  rintro kind _ ⟨hkind, rfl⟩
  refine hT.calculus.bind (hT.slotsFrame hkind (.inr rfl) .parameter (fun k hk => .inl (hparams k hk)) fun v hv =>
    hx v (hv.trans (hT.landing_after hw₁))) ?_
  rintro w₂ hw₂ ⟨slots, compute, emit⟩ ⟨slots', compute', emit'⟩ ⟨hslots, hcompute, hemit⟩
  have hn := hT.contexts_after hw₂ hn
  have hfragment := hT.ofFragment name (hT.own_after hw₂ hkind) hn hparams hslots hcompute hemit
  exact hT.calculus.andThen (hT.declaring _ name hfragment) fun _ _ _ => hT.calculus.pure (hT.snapshot hn)

/-- Only a name that is removed where definitions land can be a variable of the context. -/
theorem undefAt (hpermits : T.permits (T.landing w) tag) (hwrite : tag.write? = some (.unset name)) {s s' : Scope}
    (hs : T.scopes w s s') (owner : Nat) (cs : Bool) :
    T.simulation.rel w T.step (Directive.undefAt s owner cs name) (Directive.undefAt s' owner cs name) := by
  unfold Directive.undefAt
  rw [hT.declarationFrame hs, hT.binder? _ hs]
  refine Simulation.Calculus.either (fun _ => ?_) fun howner => ?_
  · exact hT.calculus.andThen (hT.declaring _ name (hT.ofHidden w)) fun _ _ _ => hT.calculus.pure (hT.text w "")
  · obtain rfl := Decidable.not_not.1 howner
    refine hT.calculus.andThen (hT.modifyScope fun _ _ hs => hT.remove _ cs name hs) fun _ _ _ => ?_
    refine Simulation.Calculus.either (fun hdynamic => ?_) fun _ => hT.calculus.pure (hT.text w "")
    refine hT.calculus.andThen (hT.declaring _ name (hT.ofHidden w)) fun _ _ _ => ?_
    exact hT.calculus.pure (hT.unsetVariable hs hdynamic hpermits hwrite)

theorem undef {i i' : Invocation} (hname : i.tag.name = "undef") (hpermits : T.permits (T.landing w) i.tag)
    (hshown : T.Shows i.tag) (htag : i'.tag = i.tag.shift T.offset) :
    T.simulation.rel w T.step (Directive.undef.action i) (Directive.undef.action i') := by
  dsimp only [Directive.undef]
  rw [htag, Tag.args_shift, Tag.argsSpan_shift]
  refine Simulation.Calculus.either (fun _ => hT.calculus.refused rfl hshown.span) fun _ => ?_
  refine hT.calculus.andThen (hT.calculus.arguments Arguments.rebases_readVariableName Expr.Segment.adds_shift fun hp =>
    Expr.fits_readWhole .variableName .afterVariable (hshown.args hp) Arguments.sited_takeName) ?_
  rintro ⟨name, span⟩ _ ⟨rfl, hspan, hread⟩
  refine hT.calculus.andThen hT.read ?_
  rintro _ _ ⟨rfl, rfl⟩
  refine hT.calculus.andThen hT.caseSensitively ?_
  rintro _ cs ⟨-, rfl⟩
  refine hT.calculus.andThen hT.scope fun s s' hs => ?_
  have hrest (owner : Nat) := hT.undefAt hpermits (Tag.write?_undef hname hread) hs owner cs
  dsimp only [Expr.Segment.shift]
  rw [hT.host, hT.world]
  obtain ⟨⟨owner, b⟩, ⟨_, b'⟩, hx, hy, rfl, hb⟩ | ⟨hx, hy⟩ := rel_cases (hT.lookup cs name hs) <;> rw [hx, hy]
  · cases hb with
    | slot n n' kind kind' origin =>
      cases origin with
      | letBinding => exact hT.calculus.refused rfl hspan
      | parameter => exact hT.calculus.refused rfl hspan
      | definition => exact hrest owner
    | ofVariable => exact hrest owner
    | fragment => exact hrest owner
    | hidden => exact hT.calculus.refused rfl hspan
  · exact hT.calculus.refused rfl hspan

theorem kept : T.simulation.Kept where
  toCalculus := hT.calculus
  read _ := hT.read
  caseSensitive _ := hT.caseSensitively
  contextKind _ := hT.contextKind
  setting _ strict strict' := hT.calculus.imp (hT.setting strict strict') fun _ _ _ h => ⟨h.1, trivial⟩
  elaborateWith _ _ _ := hT.elaborateWith
  expectNotLet _ name _ span' := hT.expectNotLet name span'
  frame hopens hx := hT.withFrame (.inl hopens) fun _ => hx
  letFrame hkind hkinds _ _ hx := hT.slotsFrame hkind (.inl rfl) .letBinding (fun k hk => .inr ⟨_, hkinds k hk⟩) hx
  checked := hT.checked
  bindValue _ hpermits hwrite _ _ := hT.bindValue hpermits hwrite
  fragment _ _ _ _ hparams hx := hT.fragment hparams hx
  undef := hT.undef
  addNamespace ns _ _ := hT.addNamespace ns

end Lawful

end Tandem

end Stencil
