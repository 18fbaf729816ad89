import Stencil.Proofs.Template.Alike
/-!
What compiling does to the scope. However directives are nested, the frames are afterwards as they were, apart
from the names bound where definitions land, and no directive reports that it left them otherwise. Without
resolvers, every fault is one of the text, or stands at a tag, at its arguments, or within an expression or an
argument, so it points into the source and cuts no character there.
-/
set_option autoImplicit false

namespace Stencil

open Diagnostic (Ordinary)
open Text (slice?)

abbrev Compiler.Has (c : Compiler) (s : Span) : Prop := s.Fits c.source.chars

/-- What a compilation keeps to: the faults in which it may end, and what holds of the scope all along. -/
structure Contract (c : Compiler) where
  admits : Diagnostic → Prop
  holds : Scope → Prop
  /-- Whether faults have to stand in the source. Then what is compiled stands there too. -/
  sited : Prop
  ordinary : ∀ d : Diagnostic, d.Ordinary → (sited → c.Has d.span) → admits d
  expressions : ∀ s : Setting, s.resolvers = c.resolvers → ∀ x : Expr, (sited → x.Within c.Has) →
    FailsOnly admits (s.elaborate x)
  moves : ∀ s s', Scope.Move c.host c.world c.options.caseSensitive s s' → holds s → holds s'

variable {c : Compiler} {k : Contract c} {s s' t : Scope} {α β : Type}

def Contract.Has (k : Contract c) (span : Span) : Prop := k.sited → c.Has span

def Contract.Shows (k : Contract c) (tag : Tag) : Prop := k.sited → tag.In c.source.chars

namespace Compile

/-- Started in a scope, a computation leaves one that is related to what it makes, or it ends in an admitted
fault. -/
def Leaves (k : Contract c) (s : Scope) (Q : α → Scope → Prop) (x : Compile α) : Prop :=
  ∀ n, n.scope = s → Ensures (fun r => Q r.1 r.2.scope) (x c n) ∧ FailsOnly k.admits (x c n)

variable {P : α → Scope → Prop} {Q : β → Scope → Prop}

namespace Leaves

theorem pure {a : α} (h : P a s) : Leaves k s P (pure a) := by
  rintro n rfl
  exact ⟨.ok h, .ok⟩

theorem throw {d : Diagnostic} (h : k.admits d) : Leaves k s P (throw d) :=
  fun _ _ => ⟨.error, .error h⟩

theorem refused {f : Fault} {span : Span} (h : (f.classify == .internal) = false) (hspan : k.Has span) :
    Leaves k s P (MonadExcept.throw (Diagnostic.of f span)) :=
  .throw (k.ordinary _ (Diagnostic.ordinary_of h) hspan)

theorem bind {x : Compile α} {f : α → Compile β} (hx : Leaves k s P x)
    (hf : ∀ a s', P a s' → Leaves k s' Q (f a)) : Leaves k s Q (x >>= f) := by
  intro n hn
  obtain ⟨hmade, hfailed⟩ := hx n hn
  rw [bind_apply]
  constructor
  · exact hmade.bind fun r hr => (hf r.1 r.2.scope hr r.2 rfl).1
  · exact hfailed.bind fun r hr => (hf r.1 r.2.scope (hmade r hr) r.2 rfl).2

theorem imp {P' : α → Scope → Prop} {x : Compile α} (hx : Leaves k s P x) (h : ∀ a s', P a s' → P' a s') :
    Leaves k s P' x :=
  fun n hn => ⟨fun r hr => h _ _ ((hx n hn).1 r hr), (hx n hn).2⟩

theorem ofExcept {x : Except Diagnostic α} (h : FailsOnly k.admits x) :
    Leaves k s (fun _ s' => s' = s) (ofExcept x) := by
  cases x with
  | ok a => exact .pure rfl
  | error d => exact .throw (h d rfl)

theorem read : Leaves k s (fun a s' => a = c ∧ s' = s) read := by
  rintro n rfl
  exact ⟨.ok ⟨rfl, rfl⟩, .ok⟩

theorem scope : Leaves k s (fun a s' => a = s ∧ s' = s) scope := by
  rintro n rfl
  exact ⟨.ok ⟨rfl, rfl⟩, .ok⟩

theorem caseSensitive : Leaves k s (fun a s' => a = c.options.caseSensitive ∧ s' = s) caseSensitive := by
  rintro n rfl
  exact ⟨.ok ⟨rfl, rfl⟩, .ok⟩

theorem contextKind : Leaves k s (fun _ s' => s' = s) contextKind := by
  rintro n rfl
  exact ⟨.ok rfl, .ok⟩

theorem modifyScope (f : Scope → Scope) : Leaves k s (fun _ s' => s' = f s) (modifyScope f) := by
  rintro n rfl
  exact ⟨.ok rfl, .ok⟩

theorem declare (frame : Nat) (name : String) (b : Binding) :
    Leaves k s (fun _ s' => s' = s.declare frame name b) (declare frame name b) :=
  modifyScope _

theorem allocate : Leaves k s (fun slot s' => slot = s.slots ∧ s' = s.allocate.2) allocate := by
  rintro n rfl
  exact ⟨.ok ⟨rfl, rfl⟩, .ok⟩

theorem addNamespace (ns : String) : Leaves k s (fun _ s' => s' = s) (addNamespace ns) := by
  refine caseSensitive.bind ?_
  rintro cs _ ⟨-, rfl⟩ n rfl
  refine ⟨.ok ?_, .ok⟩
  dsimp only
  split <;> rfl

theorem withFrame (context : Kind) (binder : BinderKind) {f : Nat → Compile α}
    (h : Leaves k (s.push context binder) P (f s.depth)) :
    Leaves k s (fun a s' => ∃ t, P a t ∧ s' = t.pop) (withFrame context binder f) := by
  refine (modifyScope _).bind ?_
  rintro - _ rfl
  refine scope.bind ?_
  rintro _ _ ⟨rfl, rfl⟩
  refine h.bind fun a t ht => ?_
  refine (modifyScope _).bind ?_
  rintro - _ rfl
  exact .pure ⟨t, ht, rfl⟩

theorem setting (strict : Bool) :
    Leaves k s (fun st s' => st.resolvers = c.resolvers ∧ s' = s) (setting strict) := by
  rintro n rfl
  exact ⟨.ok ⟨rfl, rfl⟩, .ok⟩

theorem elaborateWith (strict : Bool) {e : Expr} (he : k.sited → e.Within c.Has) :
    Leaves k s (fun _ s' => s' = s) (elaborateWith strict e) := by
  refine (setting strict).bind ?_
  rintro st _ ⟨hst, rfl⟩
  exact .ofExcept (k.expressions st hst e he)

theorem arguments {A : α → Prop} {reader : String → Nat → Except SyntaxError α} {text : String} {span : Span}
    (h : k.sited → FailsOnly (fun e => c.Has e.span) (reader text span.start) ∧
      Ensures A (reader text span.start)) :
    Leaves k s (fun a s' => (k.sited → A a) ∧ s' = s) (arguments reader text span) := by
  unfold Compile.arguments
  split
  · next a ha => exact .pure ⟨fun hk => (h hk).2 a ha, rfl⟩
  · next e he => exact .throw (k.ordinary _ (Diagnostic.ordinary_ofReading e) fun hk => (h hk).1 e he)

theorem checked {R : Step → Scope → Prop} {x : Compile Step} (fault : Nat → Nat → Diagnostic)
    (hdepth : ∀ a s', R a s' → s'.depth = s.depth) (hx : Leaves k s R x) : Leaves k s R (checked fault x) := by
  refine scope.bind ?_
  rintro _ s ⟨rfl, rfl⟩
  refine hx.bind fun step s' hs' => ?_
  refine scope.bind ?_
  rintro _ _ ⟨rfl, rfl⟩
  dsimp only
  rw [if_pos (hdepth step _ hs')]
  exact .pure hs'

end Leaves

/-- Started in any scope of which what is agreed on holds, a computation keeps the frames, and it. -/
def Tidy (k : Contract c) (x : Compile α) : Prop :=
  ∀ s, k.holds s → Leaves k s (fun _ s' => s.Kept s' ∧ k.holds s') x

namespace Tidy

theorem pure (a : α) : Tidy k (pure a) := fun s hs => .pure ⟨.refl s, hs⟩

theorem bind {x : Compile α} {f : α → Compile β} (hx : Tidy k x) (hf : ∀ a, Tidy k (f a)) :
    Tidy k (x >>= f) := by
  intro s hs
  refine (hx s hs).bind fun a s' h => ?_
  exact (hf a s' h.2).imp fun _ _ h' => ⟨h.1.trans h'.1, h'.2⟩

end Tidy

end Compile

open Compile (Leaves Tidy)

/-- A section that is compiled without touching more of the scope than is allowed. -/
structure Section.Tidy (k : Contract c) (x : Section) : Prop where
  control : ∀ t ∈ x.control, k.Shows t
  compile : Compile.Tidy k x.compile

structure Invocation.Tidy (k : Contract c) (i : Invocation) : Prop where
  tag : k.Shows i.tag
  sections : ∀ x ∈ i.sections, x.Tidy k

namespace Directive

theorem leaves_expectNotLet (name : String) {span : Span} (hspan : k.Has span) :
    Leaves k s (fun _ s' => s.letOwner? c.options.caseSensitive name = none ∧ s' = s) (expectNotLet name span) := by
  unfold expectNotLet
  refine Leaves.scope.bind ?_
  rintro _ _ ⟨rfl, rfl⟩
  refine Leaves.caseSensitive.bind ?_
  rintro _ _ ⟨rfl, rfl⟩
  split
  · exact .refused rfl hspan
  · next h => exact .pure ⟨by simpa using h, rfl⟩

theorem leaves_declareSlots (frame : Nat) (origin : Origin) (names : List (String × Kind)) :
    Leaves k s (fun _ s' => s' = s.bindSlots frame origin names) (declareSlots frame origin names) := by
  induction names generalizing s with
  | nil => exact .pure rfl
  | cons x names ih =>
    obtain ⟨name, kind⟩ := x
    unfold declareSlots
    refine Leaves.allocate.bind ?_
    rintro _ _ ⟨rfl, rfl⟩
    refine (Leaves.declare frame name _).bind ?_
    rintro - _ rfl
    refine ih.bind ?_
    rintro slots _ rfl
    exact .pure rfl

theorem leaves_slotsFrame {x : Compile α} (hx : Compile.Tidy k x) (context : Kind) {binder : BinderKind}
    (hbinder : (Frame.open_ context binder).takesDefinitions = false) (origin : Origin)
    (names : List (String × Kind)) (hbind : k.holds ((s.push context binder).bindSlots s.depth origin names)) :
    Leaves k s (fun _ s' => s.Kept s' ∧ k.holds s') (Compile.withFrame context binder fun frame => do
      let slots ← declareSlots frame origin names
      return (slots, ← x)) := by
  have hinside : Leaves k (s.push context binder)
      (fun _ t => ((s.push context binder).bindSlots s.depth origin names).Kept t ∧ k.holds t) (do
        let slots ← declareSlots s.depth origin names
        return (slots, ← x)) := by
    refine (leaves_declareSlots _ _ _).bind ?_
    rintro slots _ rfl
    exact (hx _ hbind).bind fun _ _ h => .pure h
  refine (Leaves.withFrame context binder hinside).imp ?_
  rintro a _ ⟨t, ⟨hkept, ht⟩, rfl⟩
  obtain ⟨f, hf, hframes, -⟩ := Scope.frames_bindSlots (s.frames_push context binder) origin names
  exact ⟨hkept.pop hframes ((Frame.takesDefinitions_of_shape hf).trans hbinder), k.moves _ _ (.leave t) ht⟩

theorem leaves_bindValue {checked : Scope} {name : String}
    (hname : checked.letOwner? c.options.caseSensitive name = none) (hchecked : checked.Kept s) (hs : k.holds s) (t : Typed) :
    Leaves k s (fun _ s' => s.Kept s' ∧ k.holds s') (bindValue name t) := by
  unfold bindValue
  refine Leaves.scope.bind ?_
  rintro _ s ⟨rfl, rfl⟩
  dsimp only
  split
  · refine (Leaves.declare _ name _).bind ?_
    rintro - _ rfl
    exact .pure ⟨s.kept_declare name _, k.moves _ _ (.define hname hchecked rfl) hs⟩
  · refine Leaves.allocate.bind ?_
    rintro slot s' ⟨rfl, rfl⟩
    refine (Leaves.declare _ name _).bind ?_
    rintro - _ rfl
    have hallocate := k.moves _ _ (.allocate _) hs
    have hkept := Scope.kept_allocate s
    have hdeclared := s.allocate.2.kept_declare name (.slot s.slots t.kind .definition)
    exact .pure ⟨hkept.trans hdeclared, k.moves _ _ (.define hname (hchecked.trans hkept) rfl) hallocate⟩

theorem leaves_fragment {name : String} (hname : s.letOwner? c.options.caseSensitive name = none) (hs : k.holds s)
    {params : List (String × Kind)}
    (hfree : ∀ name ∈ params.map Prod.fst, s.letOwner? c.options.caseSensitive name = none)
    {x : Compile (Body × Body)} (hx : Compile.Tidy k x) :
    Leaves k s (fun _ s' => s.Kept s' ∧ k.holds s') (fragment name params x) := by
  unfold fragment
  refine Leaves.scope.bind ?_
  rintro _ s ⟨rfl, rfl⟩
  dsimp only
  refine Leaves.allocate.bind ?_
  rintro snapshot _ ⟨-, rfl⟩
  refine Leaves.contextKind.bind ?_
  rintro kind _ rfl
  have hallocate := k.moves _ _ (.allocate s) hs
  have hbind := k.moves _ _ (.bindParameters s.allocate.2 kind hfree) hallocate
  refine (leaves_slotsFrame hx kind rfl .parameter _ hbind).bind ?_
  rintro ⟨slots, compute, emit⟩ s' ⟨hkept, hs'⟩
  have hkept := s.kept_allocate.trans hkept
  refine (Leaves.declare _ name _).bind ?_
  rintro - _ rfl
  rw [← hkept.declarationFrame]
  exact .pure ⟨hkept.trans (s'.kept_declare name _), k.moves _ _ (.define hname hkept rfl) hs'⟩

theorem leaves_undefAt {name : String} {owner : Nat} {b : Binding}
    (hlookup : s.lookup c.host c.world c.options.caseSensitive name = some (owner, b)) (hb : b.isLet = false)
    (hs : k.holds s) :
    Leaves k s (fun _ s' => s.Kept s' ∧ k.holds s') (undefAt s owner c.options.caseSensitive name) := by
  unfold undefAt
  split
  · refine (Leaves.declare _ name _).bind ?_
    rintro - _ rfl
    exact .pure ⟨s.kept_declare name _, k.moves _ _ (.hide hlookup hb) hs⟩
  · next howner =>
    rw [Decidable.not_not] at howner
    refine (Leaves.modifyScope _).bind ?_
    rintro - _ rfl
    rw [howner]
    have hremoved := s.kept_remove c.options.caseSensitive name
    split
    · refine (Leaves.declare _ name _).bind ?_
      rintro - _ rfl
      have hdeclared := (s.remove s.declarationFrame c.options.caseSensitive name).kept_declare name .hidden
      rw [hremoved.declarationFrame] at hdeclared
      exact .pure ⟨hremoved.trans hdeclared, k.moves _ _ (.replace hlookup hb) hs⟩
    · exact .pure ⟨hremoved, k.moves _ _ (.remove s name) hs⟩

/-- Only what is not a let or a parameter is removed. -/
theorem leaves_undef {Q : Step → Scope → Prop} {i : Invocation} (htag : k.Shows i.tag)
    (h : ∀ name owner b, s.lookup c.host c.world c.options.caseSensitive name = some (owner, b) → b.isLet = false →
      Leaves k s Q (undefAt s owner c.options.caseSensitive name)) : Leaves k s Q (undef.action i) := by
  dsimp only [undef]
  split
  · exact .refused rfl fun hk => (htag hk).span
  · refine (Leaves.arguments fun hk => Expr.fits_readWhole .variableName .afterVariable (htag hk).args
      Arguments.sited_takeName).bind ?_
    rintro ⟨name, span⟩ _ ⟨hspan, rfl⟩
    refine Leaves.read.bind ?_
    rintro _ _ ⟨rfl, rfl⟩
    refine Leaves.caseSensitive.bind ?_
    rintro _ _ ⟨rfl, rfl⟩
    refine Leaves.scope.bind ?_
    rintro _ s ⟨rfl, rfl⟩
    dsimp only
    match hlookup : s.lookup _ _ _ name with
    | none => exact .refused rfl hspan
    | some (owner, .hidden) => exact .refused rfl hspan
    | some (owner, .slot n kind .letBinding) => exact .refused rfl hspan
    | some (owner, .slot n kind .parameter) => exact .refused rfl hspan
    | some (owner, .slot n kind .definition) => exact h name owner _ hlookup rfl
    | some (owner, .variable frame n kind) => exact h name owner _ hlookup rfl
    | some (owner, .fragment f) => exact h name owner _ hlookup rfl

end Directive

namespace Contract

/-- What is made is not compared; the scope is the stage that compiling has come to. -/
def simulation (k : Contract c) : Simulation where
  first := c
  other := c
  offset := 0
  sited := k.sited
  Stage := Scope
  After := Scope.Kept
  enter s kind binder := s.push kind binder
  landing _ := .block
  rel s R x _ := k.holds s → Leaves k s (fun a s' => (s.Kept s' ∧ k.holds s') ∧ ∃ b, R s' a b) x
  admits := k.admits
  permits _ _ := True
  free s name := s.letOwner? c.options.caseSensitive name = none
  own _ _ := True
  code _ _ _ _ := True
  slots _ _ _ _ := True
  step _ _ _ := True
  steps _ _ _ := True

theorem looks {α' : Type} {R : α → α' → Prop} {x : Compile α} {y : Compile α'}
    (h : Leaves k s (fun a s' => (∃ b, R a b) ∧ s' = s) x) : k.simulation.looks s R x y := by
  refine fun hs => h.imp ?_
  rintro a _ ⟨⟨b, hab⟩, rfl⟩
  exact ⟨⟨.refl _, hs⟩, b, rfl, hab⟩

theorem related {x : Compile α} {y : Compile α} {R : Scope → α → α → Prop} (hR : ∀ s a, R s a a)
    (h : k.holds s → Leaves k s (fun _ s' => s.Kept s' ∧ k.holds s') x) : k.simulation.rel s R x y :=
  fun hs => (h hs).imp fun a s' h => ⟨h, a, hR s' a⟩

theorem tidy_of {x : Compile α} {y : Compile β} {R : Scope → α → β → Prop}
    (h : ∀ s, k.simulation.rel s R x y) : Tidy k x :=
  fun s hs => (h s hs).imp fun _ _ h => h.1

theorem kept (k : Contract c) : k.simulation.Kept where
  refl := .refl
  landing_after _ := rfl
  landing_enter _ _ _ _ := rfl
  landing_block _ _ := rfl
  own_after _ h := h
  code_after _ _ := trivial
  step_after _ _ := trivial
  steps_after _ _ := trivial
  inner_after _ _ := trivial
  pure h hs := .pure ⟨⟨.refl _, hs⟩, _, h⟩
  throw h _ := .throw h
  bind hx hf hs := (hx hs).bind fun a s' ⟨⟨hkept, hs'⟩, b, hab⟩ =>
    (hf s' hkept a b hab hs').imp fun _ _ h => ⟨⟨hkept.trans h.1.1, h.1.2⟩, h.2⟩
  ordinary := k.ordinary _
  host := rfl
  world := rfl
  snippet _ := rfl
  read _ := looks (Leaves.read.imp fun _ _ h => ⟨⟨_, h.1, rfl⟩, h.2⟩)
  caseSensitive _ := looks (Leaves.caseSensitive.imp fun _ _ h => ⟨⟨_, h.1, rfl⟩, h.2⟩)
  contextKind _ := looks (Leaves.contextKind.imp fun _ _ h => ⟨⟨_, trivial, rfl⟩, h⟩)
  lenientPredicates := rfl
  setting _ strict _ := looks ((Leaves.setting strict).imp fun st _ h => ⟨⟨st, trivial⟩, h.2⟩)
  elaborateWith _ _ _ _ he := looks ((Leaves.elaborateWith _ he).imp fun t _ h => ⟨⟨t, rfl, trivial⟩, h⟩)
  expectNotLet _ name _ _ hspan := looks ((Directive.leaves_expectNotLet name hspan).imp fun _ _ h =>
    ⟨⟨(), h.1⟩, h.2⟩)
  frame := by
    intro s kind binder x y hopens hx hs
    have hbinder := hopens.imp And.left And.left
    have hpush := k.moves _ _ (.enter s kind hbinder) hs
    refine (Leaves.withFrame kind binder (hx hpush)).imp ?_
    rintro a _ ⟨t, ⟨⟨hkept, ht⟩, -⟩, rfl⟩
    refine ⟨⟨?_, k.moves _ _ (.leave t) ht⟩, a, trivial⟩
    rcases hbinder with rfl | rfl
    · exact hkept.pop (s.frames_push kind .readOnly) rfl
    · exact Scope.kept_of_frames (hkept.frames_pop (s.frames_push kind .declarations) rfl)
  letFrame {s kind names x y} _ _ hfree hapart hx := related (fun _ _ => ⟨trivial, trivial⟩) fun hs =>
    Directive.leaves_slotsFrame (tidy_of fun v => hx v rfl) kind rfl .letBinding names
      (k.moves _ _ (.bindLets s kind hfree hapart) hs)
  checked fault _ hx hs := .checked fault (fun _ _ h => h.1.1.depth) (hx hs)
  context _ := trivial
  message _ _ := trivial
  toBool _ := trivial
  nil _ := trivial
  cons _ _ := trivial
  ofSteps _ := trivial
  text _ _ := trivial
  emit _ := trivial
  choose _ _ _ := trivial
  each _ _ _ _ := trivial
  inside _ _ := trivial
  lets _ _ _ _ := trivial
  assert _ _ := trivial
  raise _ _ := trivial
  raiseText _ := trivial
  rendered _ _ _ := trivial
  bindValue _ _ _ hname hchecked _ := related (fun _ _ => trivial) fun hs =>
    Directive.leaves_bindValue hname hchecked hs _
  fragment _ _ hname hfree _ hx := related (fun _ _ => trivial) fun hs =>
    Directive.leaves_fragment hname hs hfree (tidy_of fun v => hx v rfl)
  undef _ _ htag _ := related (fun _ _ => trivial) fun hs => Directive.leaves_undef htag fun _ _ _ hlookup hb =>
    Directive.leaves_undefAt hlookup hb hs
  passCap _ _ _ := trivial
  tell _ _ _ := trivial
  addNamespace ns _ _ := related (fun _ _ => trivial) fun hs => (Leaves.addNamespace ns).imp (by
    rintro _ _ rfl
    exact ⟨.refl _, hs⟩)

end Contract

theorem Section.Tidy.like {xs : List Section} (h : ∀ x ∈ xs, x.Tidy k) (r : Landing) :
    List.Forall₂ (Section.Like k.simulation r) xs xs :=
  List.forall₂_same.2 fun x hx => ⟨(Tag.map_shift_zero _).symm, (h x hx).control, rfl, rfl,
    fun _ _ => Contract.related (fun _ _ => trivial) ((h x hx).compile _)⟩

theorem Invocation.Tidy.like {i : Invocation} (h : i.Tidy k) : i.Like k.simulation .block i :=
  ⟨h.tag, rfl, Section.Tidy.like h.sections _⟩

theorem Directive.leaves_block {i : Invocation} (hi : i.Tidy k) (hs : k.holds s) :
    Leaves k s (fun _ s' => s'.frames = s.frames ∧ k.holds s') (block.action i) := by
  have hbody (kind : Kind) (code : Code) :
      Leaves k s (fun _ s' => s'.frames = s.frames ∧ k.holds s') (do
        let x ← i.body (.requires "block" "a body")
        let body ← Compile.withFrame kind .declarations fun _ => x.compile
        return Step.block code body) := by
    refine (k.kept.body (w := s) hi.like (f := .requires "block" "a body") rfl hs).bind ?_
    rintro x _ ⟨-, _, rfl, hx⟩
    have hpush := k.moves _ _ (.enter _ kind (.inr rfl)) hs
    refine (Leaves.withFrame kind .declarations (hx.compile _ rfl hpush)).bind ?_
    rintro b _ ⟨t, ⟨⟨hkept, ht⟩, -⟩, rfl⟩
    exact .pure ⟨hkept.frames_pop (Scope.frames_push _ kind .declarations) rfl, k.moves _ _ (.leave t) ht⟩
  dsimp only [block]
  split
  · rw [pure_bind]
    refine Leaves.contextKind.bind ?_
    rintro kind _ rfl
    exact hbody kind _
  · rw [bind_map_left]
    refine (k.kept.expression (w := s) (fun hk => (hi.tag hk).args) hs).bind ?_
    rintro t _ ⟨-, _, rfl, -⟩
    dsimp only
    rw [pure_bind]
    exact hbody t.kind _

namespace Compile

theorem leaves_directive {P : Step → Scope → Prop} {tag : Tag} {xs : List Section}
    {D : Directive (Invocation → Compile Step)} (hD : Directives.standard.get? tag.name = some D)
    (hdepth : ∀ a s', P a s' → s'.depth = s.depth) (h : Leaves k s P (D.action ⟨tag, xs⟩)) :
    Leaves k s P (directive .standard tag xs) := by
  unfold directive
  rw [hD]
  exact Leaves.checked (fun after depth => .of (.unbalanced tag.name after depth) tag.span) hdepth h

theorem tidy_directive {tag : Tag} (htag : k.Shows tag) {xs : List Section} (hxs : ∀ x ∈ xs, x.Tidy k) :
    Tidy k (directive .standard tag xs) :=
  Contract.tidy_of fun s => kept_directive (w := s) k.kept htag trivial (.inr (Section.Tidy.like hxs _))

theorem tidy_node {nd : Node} (hin : k.sited → nd.In c.source.chars)
    (h : ∀ d ∈ nd.faults, k.Has d.span → k.admits d) : Tidy k (node .standard nd) :=
  Contract.tidy_of (kept_node k.kept (fun _ _ => trivial) nd hin h)

theorem tidy_nodes {ns : List Node} (hin : k.sited → Node.AllIn c.source.chars ns)
    (h : ∀ d ∈ Node.faultsAll ns, k.Has d.span → k.admits d) : Tidy k (nodes .standard ns) :=
  Contract.tidy_of (kept_nodes k.kept (fun _ _ => trivial) ns hin h)

theorem tidy_sections {ss : List DocSection} (hin : k.sited → DocSection.AllIn c.source.chars ss)
    (h : ∀ d ∈ DocSection.faults ss, k.Has d.span → k.admits d) : ∀ x ∈ sections .standard ss, x.Tidy k := by
  induction ss with
  | nil => simp [sections]
  | cons s ss ih =>
    obtain ⟨control, span, text, ns⟩ := s
    rw [DocSection.AllIn] at hin
    rw [DocSection.faults] at h
    obtain ⟨hns, hss⟩ := List.forall_mem_append.1 h
    rw [sections]
    refine List.forall_mem_cons.2 ⟨⟨fun t ht hk => (hin hk).1 t ht, ?_⟩, ih (fun hk => (hin hk).2.2) hss⟩
    exact (tidy_nodes (fun hk => (hin hk).2.1) hns).bind fun _ => .pure _

theorem tidy_body {ns : List Node} (hin : k.sited → Node.AllIn c.source.chars ns)
    (h : ∀ d ∈ Node.faultsAll ns, k.Has d.span → k.admits d) : Tidy k (body .standard ns) :=
  (tidy_nodes hin h).bind fun _ => .pure _

end Compile

def Compiler.Blameless (c : Compiler) : Prop := ∀ f ∈ c.resolvers, ∀ r, FailsOnly Ordinary (f r)

def Contract.any (c : Compiler) : Contract c where
  admits := fun _ => True
  holds := fun _ => True
  sited := False
  ordinary := fun _ _ _ => trivial
  expressions := fun _ _ _ _ _ _ => trivial
  moves := fun _ _ _ _ => trivial

/-- The compiler itself is never at fault, and the scope has a property that every change keeps. -/
def Compiler.Blameless.contract (hc : c.Blameless) (holds : Scope → Prop)
    (moves : ∀ s s', Scope.Move c.host c.world c.options.caseSensitive s s' → holds s → holds s') : Contract c where
  admits := Ordinary
  holds := holds
  sited := False
  ordinary := fun _ h _ => h
  expressions := fun s hs x _ => Setting.Blameless.elaborate (s := s) (fun f hf => hc f (hs ▸ hf)) x
  moves := moves

/-- What compiling a text does to the scope, and that it is never the compiler that is at fault. -/
theorem Compile.compiling_keeps_outer_frames (c : Compiler) (pos : Nat) (cs : List Char) (n : Names) :
    (∀ b m, body .standard (Node.read Directives.standard pos cs) c n = .ok (b, m) →
      m.scope.depth = n.scope.depth ∧
      ∀ i f, n.scope.frame? i = some f → ∃ f', m.scope.frame? i = some f' ∧ f'.context = f.context ∧
        f'.binder = f.binder ∧ (i ≠ n.scope.declarationFrame → f' = f)) ∧
    (∀ tag ss step m, tag.name = "block" → node .standard (.directive tag ss) c n = .ok (step, m) →
      ∀ caseSensitive name, m.scope.lookup c.host c.world caseSensitive name =
        n.scope.lookup c.host c.world caseSensitive name) ∧
    (c.Blameless → ∀ d, body .standard (Node.read Directives.standard pos cs) c n = .error d →
      d.fault.classify ≠ .internal) := by
  refine ⟨fun b m hm => ?_, fun tag ss step m hblock hm caseSensitive name => ?_, fun hc d hd => ?_⟩
  · have hkept := ((tidy_body (k := .any c) False.elim (fun _ _ _ => trivial) n.scope trivial n rfl).1 _ hm).1
    refine ⟨hkept.depth, fun i f hf => ?_⟩
    by_cases hi : i = n.scope.declarationFrame
    · have hshape := congrArg (fun fs => fs.reverse[i]?) hkept.shape
      simp only [Scope.shape, ← List.map_reverse, List.getElem?_map] at hshape
      rw [show n.scope.frames.reverse[i]? = some f from hf] at hshape
      obtain ⟨f', hf', hsame⟩ := Option.map_eq_some_iff.1 hshape
      exact ⟨f', hf', congrArg Prod.fst hsame, congrArg Prod.snd hsame, fun hne => absurd hi hne⟩
    · exact ⟨f, (hkept.others i hi).trans hf, rfl, rfl, fun _ => rfl⟩
  · have hget : Directives.standard.get? tag.name = some Directive.block := by rw [hblock]; rfl
    have hinvocation : Invocation.Tidy (.any c) ⟨tag, sections .standard ss⟩ :=
      ⟨False.elim, tidy_sections (k := .any c) False.elim fun _ _ _ => trivial⟩
    have hleaves := leaves_directive hget (fun _ _ h => Scope.depth_of_shape (congrArg (List.map Frame.shape) h.1))
      (Directive.leaves_block (s := n.scope) hinvocation trivial)
    rw [node] at hm
    have hframes : m.scope.frames = n.scope.frames := ((hleaves n rfl).1 _ hm).1
    unfold Scope.lookup
    rw [hframes]
  · have htidy := tidy_body (k := hc.contract (fun _ => True) fun _ _ _ _ => trivial) False.elim
      fun d hd _ => Node.ordinary_read Directives.standard pos cs d hd
    exact (htidy n.scope trivial n rfl).2 d hd

/-- Inside a let, a block defines a name for itself, and a fragment is defined for all that follows. -/
theorem Compile.compiling_keeps_outer_frames_let :
    let c := Engine.default.compiler "" .empty
    let n : Names := ⟨((Scope.init .empty .empty .any).push .any .lets).declare 1 "b" (.slot 0 .any .letBinding), []⟩
    let source := "$$#block$$$$#define a = b$$$$a$$$$/block$$$$#define f(p)$$<$$p$$>$$/define$$".toList
    let x := body .standard (Node.read Directives.standard 0 source)
    c.Blameless ∧ (∀ d, x c n = .error d → d.fault.classify ≠ .internal) ∧
      ∃ b m, x c n = .ok (b, m) ∧ m.scope.depth = 2 ∧ m.scope.frame? 1 = n.scope.frame? 1 ∧
        m.scope.binder? 0 = some .declarations ∧ m.scope.lookup c.host c.world true "a" = none ∧
        (m.scope.lookup c.host c.world true "f").map Prod.fst = some 0 := by
  intro c n source x
  have hc : c.Blameless := fun _ hf => absurd hf List.not_mem_nil
  have hrun : (x c n).toOption.map (fun r => ((r.2.scope.lookup c.host c.world true "a").isNone,
      (r.2.scope.lookup c.host c.world true "f").map Prod.fst)) = some (true, some 0) := by decide +kernel
  obtain ⟨⟨b, m⟩, hm, hlookup⟩ := Option.map_eq_some_iff.1 hrun
  obtain ⟨ha, hf⟩ := Prod.mk.inj hlookup
  have hm : x c n = .ok (b, m) := ok_of_toOption hm
  obtain ⟨hframes, -, hfaults⟩ := compiling_keeps_outer_frames c 0 source n
  obtain ⟨hdepth, hkept⟩ := hframes b m hm
  obtain ⟨root, hroot, -, hbinder, -⟩ := hkept 0 _ rfl
  obtain ⟨lets, hlets, -, -, hsame⟩ := hkept 1 _ rfl
  refine ⟨hc, hfaults hc, b, m, hm, hdepth, ?_, ?_, Option.isNone_iff_eq_none.1 ha, hf⟩
  · rw [hlets, hsame (by decide)]
    rfl
  · unfold Scope.binder?
    rw [hroot]
    exact congrArg some hbinder

/-! ### What compiling points at -/

/-- Faults stand in the source, and of the scope nothing is asked. -/
def Contract.pointing {c : Compiler} (hc : c.resolvers = []) : Contract c where
  admits := fun d => c.Has d.span
  holds := fun _ => True
  sited := True
  ordinary := fun _ _ h => h trivial
  expressions := fun s hs x hx d hd => by
    have hblames : s.Blames c.Has := ⟨by rw [hs, hc]; exact nofun, fun _ _ => Span.Fits.merge⟩
    exact (hblames.elaborate x (hx trivial) d hd).2
  moves := fun _ _ _ _ => trivial

theorem Diagnostic.span_locate (d : Diagnostic) (s : Source) : (d.locate s).span = d.span := by
  unfold locate
  split <;> rfl

namespace Engine

theorem fits_compile {e : Engine} (hd : e.directives = .standard) (hr : e.resolvers = []) (source : String)
    (context : Kind) (w : World) : FailsOnly (fun d => d.span.Fits source.toList) (e.compile source context w) := by
  have hall : slice? source.toList 0 (Text.byteLength source.toList) = some source.toList :=
    Text.slice?_eq_some_iff.2 ⟨[], [], by simp, rfl, by simp⟩
  intro d h
  unfold compile at h
  rw [hd] at h
  dsimp only at h
  split at h
  · cases h
  · next d' hd' =>
    cases h
    let c : Compiler := ⟨⟨source⟩, e.host, w, e.types, e.resolvers, e.options⟩
    have htidy : Compile.Tidy (.pointing (c := c) hr)
        (Compile.body .standard (Node.read Directives.standard 0 source.toList)) :=
      Compile.tidy_body (fun _ => (Node.read_in hall).1) fun _ _ h => h trivial
    rw [Diagnostic.span_locate]
    exact (htidy _ trivial _ rfl).2 d' hd'

/-- Every fault of a template points into its source and cuts no character there. A text that stands at a base
of the source is read as it is read alone, with every range, also that of an error, shifted by the base. -/
theorem compile_error_in_source {e : Engine} (hd : e.directives = .standard) (hr : e.resolvers = []) :
    (∀ source context w d, e.compile source context w = .error d →
      d.span.start ≤ d.span.stop ∧ d.span.stop ≤ Text.byteLength source.toList ∧
        Text.Boundary source.toList d.span.start ∧ Text.Boundary source.toList d.span.stop) ∧
    Rebases Placed.ofText (fun k => List.map (Placed.shift k)) ∧ Rebases Expr.ofText Expr.shift ∧
    Rebases Arguments.readLetBindings (fun k => List.map (LetBinding.shift k)) ∧
    Rebases Arguments.readDefineHead DefineHead.shift ∧
    Rebases Arguments.readAssertion (fun k => Prod.map (Expr.shift k) (Option.map (Expr.shift k))) ∧
    Rebases Arguments.readVariableName Expr.Segment.shift ∧ Rebases Arguments.readNamespace Expr.Segment.shift := by
  refine ⟨fun source context w d h => ?_, Placed.rebases_ofText, Expr.rebases_ofText,
    Arguments.rebases_readLetBindings, Arguments.rebases_readDefineHead, Arguments.rebases_readAssertion,
    Arguments.rebases_readVariableName, Arguments.rebases_readNamespace⟩
  have hfits := fits_compile hd hr source context w d h
  exact ⟨hfits.ordered, hfits.stop.le, hfits.start, hfits.stop⟩

/-- In a let within a branch, after a character of two bytes, a value ends too early. -/
theorem compile_error_in_source_nested :
    let source := "ü$$#if true$$$$#let a = 1, b = (2 +$$ä$$/let$$$$/if$$"
    Engine.default.directives = .standard ∧ Engine.default.resolvers = [] ∧
      ∃ d, Engine.default.compile source .any .empty = .error d ∧ d.span = ⟨36, 36⟩ ∧
        d.span.start ≤ d.span.stop ∧ d.span.stop ≤ Text.byteLength source.toList ∧
        Text.Boundary source.toList d.span.start ∧ Text.Boundary source.toList d.span.stop := by
  intro source
  have hrun : (match Engine.default.compile source .any .empty with
      | .ok _ => none
      | .error d => some d.span) = some ⟨36, 36⟩ := by decide +kernel
  cases h : Engine.default.compile source .any .empty with
  | ok t => rw [h] at hrun; cases hrun
  | error d =>
    rw [h] at hrun
    exact ⟨rfl, rfl, d, rfl, Option.some.inj hrun, (compile_error_in_source rfl rfl).1 source .any .empty d h⟩

end Engine

end Stencil
