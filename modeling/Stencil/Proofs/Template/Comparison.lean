import Stencil.Engine
import Stencil.Proofs.Expr.Rebase
import Stencil.Proofs.Scope.Frames
import Stencil.Proofs.Template.Placing
import Stencil.Proofs.Template.Shift
set_option autoImplicit false

namespace Stencil

open Text (slice?)

/-! ### What directives do to variables of the context

Only those count that stand outside all blocks: inside a block a definition lands in the frame of the block, and text
that is not read as a template defines nothing. -/

def DefineHead.write? (h : DefineHead) : Option Write :=
  match h.form with
  | .value _ _ | .body none => some (.set h.name)
  | .body (some _) => none

def Tag.write? (t : Tag) : Option Write :=
  if t.name = "define" then (Arguments.readDefineHead t.args t.argsSpan.start).toOption.bind DefineHead.write?
  else if t.name = "undef" then
    (Arguments.readVariableName t.args t.argsSpan.start).toOption.map fun x => .unset x.name
  else none

namespace Tag

variable {t : Tag}

theorem write?_define (hname : t.name = "define") {head : DefineHead}
    (hread : Arguments.readDefineHead t.args t.argsSpan.start = .ok head) : t.write? = head.write? := by
  simp [write?, hname, hread, Except.toOption]

theorem write?_undef (hname : t.name = "undef") {x : Expr.Segment}
    (hread : Arguments.readVariableName t.args t.argsSpan.start = .ok x) : t.write? = some (.unset x.name) := by
  simp [write?, hname, hread, Except.toOption]

end Tag

/-- The directives that keep to themselves what is defined in their bodies. -/
def Directives.confining : List String := ["block", "literal", "comment"]

mutual

def Node.writes : Node → List Write
  | .directive tag ss =>
    tag.write?.toList ++ if Directives.confining.contains tag.name then [] else DocSection.writes ss
  | _ => []

def Node.writesAll : List Node → List Write
  | [] => []
  | nd :: ns => nd.writes ++ Node.writesAll ns

def DocSection.writes : List DocSection → List Write
  | [] => []
  | .mk _ _ _ ns :: ss => Node.writesAll ns ++ DocSection.writes ss

end

/-- What the directives of a template do to variables of its context. -/
def Source.writes (s : Source) : List Write := Node.writesAll (Node.read Directives.standard 0 s.chars)

theorem Directives.name_of_get? {name : String} {D : Directive (Invocation → Compile Step)}
    (h : Directives.standard.get? name = some D) : D.name = name := by
  have hnames : ∀ e ∈ Directives.standard.directives.entries, e.2.name = e.1 := by decide +kernel
  obtain ⟨⟨key, D⟩, hD, rfl⟩ := Option.map_eq_some_iff.1 h
  have hkey := List.find?_some hD
  exact (hnames _ (List.mem_of_find?_eq_some hD)).trans (by simpa using hkey)

/-! ### Two compilers -/

/-- Two compilers, the second of which may have its text further on, and what is compared of what they make. It may
depend on the stage that compiling has come to. -/
structure Comparison where
  first : Compiler
  other : Compiler
  offset : Nat
  /-- Whether what is compiled stands in the source where it says. -/
  sited : Prop
  Stage : Type
  After : Stage → Stage → Prop
  enter : Stage → Kind → BinderKind → Stage
  landing : Stage → Landing
  admits : Diagnostic → Prop
  permits : Landing → Tag → Prop
  free : Stage → String → Prop
  /-- The kind of the context that is innermost at a stage. -/
  own : Stage → Kind → Prop
  code : Stage → Kind → Code → Code → Prop
  slots : Stage → List Kind → List Nat → List Nat → Prop
  step : Stage → Step → Step → Prop
  steps : Stage → List Step → List Step → Prop

structure Simulation extends Comparison where
  /-- What both compilations make is related at the stage they come to. -/
  rel {α α' : Type} : Stage → (Stage → α → α' → Prop) → Compile α → Compile α' → Prop

def Compiler.settingAt (c : Compiler) (n : Names) (strict : Bool) : Setting :=
  ⟨c.host, c.world, n.scope, c.types, n.namespaces, c.resolvers, c.options.caseSensitive, strict⟩

/-- Compiles a directive and checks that it left the frames as they were. -/
def Compile.checked (fault : Nat → Nat → Diagnostic) (x : Compile Step) : Compile Step := do
  let depth := (← scope).depth
  let step ← x
  let after := (← scope).depth
  if after = depth then return step else throw (fault after depth)

/-- Defines a fragment with given parameters, once they are checked. -/
def Directive.fragment (name : String) (params : List (String × Kind)) (x : Compile (Body × Body)) :
    Compile Step := do
  let frame := (← Compile.scope).declarationFrame
  let snapshot ← Compile.allocate
  let r ← Compile.withFrame (← Compile.contextKind) .parameters fun inner => do
    let slots ← declareSlots inner .parameter params
    return (slots, ← x)
  Compile.declare frame name (.fragment ⟨name, r.1, snapshot, r.2.1, r.2.2⟩)
  return .snapshot snapshot

def Directive.undefAt (s : Scope) (owner : Nat) (cs : Bool) (name : String) : Compile Step :=
  if owner ≠ s.declarationFrame then do
    Compile.declare s.declarationFrame name .hidden
    return .text ""
  else do
    Compile.modifyScope fun s => s.remove owner cs name
    if s.binder? owner = some .dynamic then
      Compile.declare owner name .hidden
      return .unsetVariable owner name
    else return .text ""

theorem Compile.bind_apply {α β : Type} (x : Compile α) (f : α → Compile β) (c : Compiler) (n : Names) :
    (x >>= f) c n = x c n >>= fun r => f r.1 c r.2 :=
  rfl

namespace Comparison

variable (P : Comparison)

def Has (span : Span) : Prop := P.sited → span.Fits P.first.source.chars

def Reads (text : String) (span : Span) : Prop :=
  P.sited → slice? P.first.source.chars span.start span.stop = some text.toList

def Shows (tag : Tag) : Prop := P.sited → tag.In P.first.source.chars

def Within (e : Expr) : Prop := P.sited → e.Within (·.Fits P.first.source.chars)

abbrev typed (w : P.Stage) (t t' : Typed) : Prop := t'.kind = t.kind ∧ P.code w t.kind t.code t'.code

/-- The frame of a repetition has the kind of the elements of what is gone through, that of a block the kind of what
it is given. -/
def Opens (w : P.Stage) (kind : Kind) (binder : BinderKind) : Prop :=
  (binder = .readOnly ∧ ∃ k c c', P.code w k c c' ∧ P.first.host.element? P.first.world k = some kind) ∨
    binder = .declarations ∧ ∃ c c', P.code w kind c c'

abbrev parts (w : P.Stage) (r r' : Body × Body) : Prop := P.steps w r.1 r'.1 ∧ P.steps w r.2 r'.2

/-- Expressions and steps that are made of parts which are related. -/
structure Steps : Prop where
  context {w : P.Stage} {k : Kind} : P.own w k → P.code w k (.context 0) (.context 0)
  message (w : P.Stage) (s : String) : P.code w .text (.const (.text s)) (.const (.text s))
  toBool {w : P.Stage} {k : Kind} {c c' : Code} : P.code w k c c' → P.code w .bool (.toBool c) (.toBool c')
  text (w : P.Stage) (s : String) : P.step w (.text s) (.text s)
  emit {w : P.Stage} {k : Kind} {c c' : Code} : P.code w k c c' → P.step w (.emit c) (.emit c')
  choose {w : P.Stage} {k : Kind} {c c' : Code} {yes yes' no no' : Body} : P.code w k c c' → P.steps w yes yes' →
    P.steps w no no' → P.step w (.choose c yes no) (.choose c' yes' no')
  each {w : P.Stage} {k kind : Kind} {c c' : Code} {body body' fallback fallback' : Body} : P.code w k c c' →
    P.first.host.element? P.first.world k = some kind → P.steps (P.enter w kind .readOnly) body body' →
    P.steps w fallback fallback' → P.step w (.each c body fallback) (.each c' body' fallback')
  inside {w : P.Stage} {kind : Kind} {c c' : Code} {body body' : Body} : P.code w kind c c' →
    P.steps (P.enter w kind .declarations) body body' → P.step w (.block c body) (.block c' body')
  lets {w : P.Stage} {kind : Kind} {slots slots' : List Nat} {ts ts' : List Typed} {body body' : Body} : P.own w kind →
    P.slots w (ts.map (·.kind)) slots slots' → List.Forall₂ (P.typed w) ts ts' →
    P.steps (P.enter w kind .lets) body body' →
    P.step w (.bind slots (ts.map (·.code)) body) (.bind slots' (ts'.map (·.code)) body')
  assert {w : P.Stage} {k l : Kind} {c c' m m' : Code} : P.code w k c c' → P.code w l m m' →
    P.step w (.assert c m) (.assert c' m')
  raise (w : P.Stage) (message : String) : P.step w (.raise message) (.raise message)
  raiseText {w : P.Stage} {body body' : Body} : P.steps w body body' → P.step w (.raiseText body) (.raiseText body')
  rendered {w : P.Stage} {tag : Tag} {r r' : Body × Body} : tag.name = "define" → P.permits (P.landing w) tag →
    P.parts w r r' → P.code w .text (.rendered r.1 r.2) (.rendered r'.1 r'.2)
  passCap {w : P.Stage} {tag : Tag} (n : Nat) : tag.name = "pragma" → P.permits (P.landing w) tag →
    P.step w (.passCap n) (.passCap n)
  tell {w : P.Stage} {tag : Tag} (s : String) : tag.name = "pragma" → P.permits (P.landing w) tag →
    P.step w (.pragma s) (.pragma s)

/-- What holds at a stage holds later on, and steps may be put together. -/
structure Stages : Prop extends P.Steps where
  refl (w : P.Stage) : P.After w w
  landing_after {v w : P.Stage} : P.After v w → P.landing w = P.landing v
  landing_enter (w : P.Stage) (kind : Kind) {binder : BinderKind} :
    binder ≠ .declarations → P.landing (P.enter w kind binder) = P.landing w
  landing_block (w : P.Stage) (kind : Kind) : P.landing (P.enter w kind .declarations) = .block
  own_after {v w : P.Stage} {k : Kind} : P.After v w → P.own v k → P.own w k
  code_after {v w : P.Stage} {k : Kind} {c c' : Code} : P.After v w → P.code v k c c' → P.code w k c c'
  step_after {v w : P.Stage} {s s' : Step} : P.After v w → P.step v s s' → P.step w s s'
  steps_after {v w : P.Stage} {ss ss' : List Step} : P.After v w → P.steps v ss ss' → P.steps w ss ss'
  inner_after {v w : P.Stage} {kind : Kind} {ss ss' : List Step} : P.After v w →
    P.steps (P.enter v kind .readOnly) ss ss' → P.steps (P.enter w kind .readOnly) ss ss'
  nil (w : P.Stage) : P.steps w [] []
  cons {w : P.Stage} {s s' : Step} {ss ss' : List Step} : P.step w s s' → P.steps w ss ss' →
    P.steps w (s :: ss) (s' :: ss')
  ofSteps {w : P.Stage} {ss ss' : List Step} : P.steps w ss ss' → P.steps w (Body.ofSteps ss) (Body.ofSteps ss')
  ordinary {d : Diagnostic} : d.Ordinary → P.Has d.span → P.admits d
  host : P.other.host = P.first.host
  world : P.other.world = P.first.world
  snippet {e : Expr} : P.Within e →
    P.other.source.snippet (e.span.shift P.offset) = P.first.source.snippet e.span
  lenientPredicates : P.other.options.lenientPredicates = P.first.options.lenientPredicates

variable {P}

theorem Reads.span {text : String} {span : Span} (h : P.Reads text span) : P.Has span :=
  fun hp => Span.fits_of_slice? (h hp)

theorem Shows.span {tag : Tag} (h : P.Shows tag) : P.Has tag.span := fun hp => (h hp).span

theorem Shows.args {tag : Tag} (h : P.Shows tag) : P.Reads tag.args tag.argsSpan := fun hp => (h hp).args

end Comparison

namespace Simulation

variable (P : Simulation)

abbrev looks {α α' : Type} (w : P.Stage) (R : α → α' → Prop) (x : Compile α) (y : Compile α') : Prop :=
  P.rel w (fun w' a b => w' = w ∧ R a b) x y

structure Calculus : Prop extends P.toComparison.Stages where
  pure {α α' : Type} {w : P.Stage} {R : P.Stage → α → α' → Prop} {a : α} {b : α'} :
    R w a b → P.rel w R (pure a) (pure b)
  throw {α α' : Type} {w : P.Stage} {R : P.Stage → α → α' → Prop} {d : Diagnostic} {y : Compile α'} :
    P.admits d → P.rel w R (throw d) y
  bind {α α' β β' : Type} {w : P.Stage} {R : P.Stage → α → α' → Prop} {S : P.Stage → β → β' → Prop} {x : Compile α}
    {y : Compile α'} {f : α → Compile β} {g : α' → Compile β'} : P.rel w R x y →
    (∀ w', P.After w w' → ∀ a b, R w' a b → P.rel w' S (f a) (g b)) → P.rel w S (x >>= f) (y >>= g)

structure Kept : Prop extends P.Calculus where
  read (w : P.Stage) : P.looks w (fun c c' => c = P.first ∧ c' = P.other) read read
  caseSensitive (w : P.Stage) : P.looks w (fun cs cs' => cs = P.first.options.caseSensitive ∧ cs' = cs)
    Compile.caseSensitive Compile.caseSensitive
  contextKind (w : P.Stage) : P.looks w (fun k k' => P.own w k ∧ k' = k) Compile.contextKind Compile.contextKind
  setting (w : P.Stage) (strict strict' : Bool) :
    P.looks w (fun _ _ => True) (Compile.setting strict) (Compile.setting strict')
  /-- Expressions are compiled at strictnesses that go up with those of the compilers. -/
  elaborateWith (w : P.Stage) {s : Bool → Bool} {e : Expr} :
    (s false = true → s true = true) → P.Within e →
    P.looks w (P.typed w) (Compile.elaborateWith (s P.first.options.strict) e)
      (Compile.elaborateWith (s P.other.options.strict) (e.shift P.offset))
  expectNotLet (w : P.Stage) (name : String) {span : Span} (span' : Span) : P.Has span →
    P.looks w (fun _ _ => P.free w name) (Directive.expectNotLet name span) (Directive.expectNotLet name span')
  frame {w : P.Stage} {kind : Kind} {binder : BinderKind} {x y : Compile Body} :
    P.Opens w kind binder → P.rel (P.enter w kind binder) P.steps x y →
    P.rel w (fun w' => P.steps (P.enter w' kind binder)) (Compile.withFrame kind binder fun _ => x)
      (Compile.withFrame kind binder fun _ => y)
  letFrame {w : P.Stage} {kind : Kind} {names : List (String × Kind)} {x y : Compile Body} :
    P.own w kind → (∀ k ∈ names.map Prod.snd, ∃ c c', P.code w k c c') → (∀ name ∈ names.map Prod.fst, P.free w name) →
    (names.map Prod.fst).Pairwise (fun a b => sameName P.first.options.caseSensitive a b = false) →
    (∀ v, P.landing v = P.landing w → P.rel v P.steps x y) →
    P.rel w (fun w' r r' => P.slots w' (names.map Prod.snd) r.1 r'.1 ∧ P.steps (P.enter w' kind .lets) r.2 r'.2)
      (Compile.withFrame kind .lets fun frame => do
        let slots ← Directive.declareSlots frame .letBinding names
        return (slots, ← x))
      (Compile.withFrame kind .lets fun frame => do
        let slots ← Directive.declareSlots frame .letBinding names
        return (slots, ← y))
  checked {w : P.Stage} {x y : Compile Step} (fault fault' : Nat → Nat → Diagnostic) :
    P.rel w P.step x y → P.rel w P.step (Compile.checked fault x) (Compile.checked fault' y)
  bindValue {v w : P.Stage} {tag : Tag} {name : String} {t t' : Typed} : tag.name = "define" →
    P.permits (P.landing w) tag → tag.write? = some (.set name) → P.free v name → P.After v w → P.typed w t t' →
    P.rel w P.step (Directive.bindValue name t) (Directive.bindValue name t')
  fragment {w : P.Stage} {tag : Tag} {name : String} {params : List (String × Kind)} {x y : Compile (Body × Body)} :
    tag.name = "define" → P.permits (P.landing w) tag → P.free w name →
    (∀ name ∈ params.map Prod.fst, P.free w name) → (∀ k ∈ params.map Prod.snd, k = .any) →
    (∀ v, P.landing v = P.landing w → P.rel v P.parts x y) →
    P.rel w P.step (Directive.fragment name params x) (Directive.fragment name params y)
  undef {w : P.Stage} {i i' : Invocation} : i.tag.name = "undef" → P.permits (P.landing w) i.tag → P.Shows i.tag →
    i'.tag = i.tag.shift P.offset → P.rel w P.step (Directive.undef.action i) (Directive.undef.action i')
  addNamespace {w : P.Stage} {tag : Tag} (ns : String) : tag.name = "using" → P.permits (P.landing w) tag →
    P.rel w (fun _ _ _ => True) (Compile.addNamespace ns) (Compile.addNamespace ns)

end Simulation

variable {P : Simulation} {w : P.Stage} {r : Landing} {α β α' β' : Type}

/-- Sections that are compiled alike wherever definitions land so. -/
structure Section.Like (P : Simulation) (r : Landing) (s s' : Section) : Prop where
  control : s'.control = s.control.map (Tag.shift P.offset)
  shown : ∀ t ∈ s.control, P.Shows t
  isEmpty : s'.span.isEmpty = s.span.isEmpty
  text : s'.text = s.text
  compile : ∀ w, P.landing w = r → P.rel w P.steps s.compile s'.compile

structure Invocation.Like (P : Simulation) (r : Landing) (i i' : Invocation) : Prop where
  shown : P.Shows i.tag
  tag : i'.tag = i.tag.shift P.offset
  sections : List.Forall₂ (Section.Like P r) i.sections i'.sections

theorem Section.Like.texts {ss ss' : List Section} (h : List.Forall₂ (Section.Like P r) ss ss') :
    ss'.map (·.text) = ss.map (·.text) := by
  induction h with
  | nil => rfl
  | cons hs _ ih => rw [List.map_cons, List.map_cons, hs.text, ih]

namespace Simulation

variable {R : P.Stage → α → α' → Prop} {S : P.Stage → β → β' → Prop} {i i' : Invocation}

namespace Calculus

variable (hP : P.Calculus)
include hP

theorem refused {f : Fault} {span : Span} {y : Compile α'} (hf : (f.classify == .internal) = false)
    (hspan : P.Has span) : P.rel w R (MonadExcept.throw (Diagnostic.of f span)) y :=
  hP.throw (hP.ordinary (Diagnostic.ordinary_of hf) hspan)

theorem andThen {A : α → α' → Prop} {x : Compile α} {y : Compile α'} {f : α → Compile β} {g : α' → Compile β'}
    (hx : P.looks w A x y) (hf : ∀ a b, A a b → P.rel w S (f a) (g b)) : P.rel w S (x >>= f) (y >>= g) := by
  refine hP.bind hx ?_
  rintro _ - a b ⟨rfl, hab⟩
  exact hf a b hab

theorem imp {R' : P.Stage → α → α' → Prop} {x : Compile α} {y : Compile α'} (hx : P.rel w R x y)
    (h : ∀ w' a b, R w' a b → R' w' a b) : P.rel w R' x y := by
  have hbind := hP.bind hx fun w' _ a b hab => hP.pure (h w' a b hab)
  rwa [bind_pure, bind_pure] at hbind

omit hP in
theorem either {q : Prop} [Decidable q] {x u : Compile α} {y v : Compile α'} (hyes : q → P.rel w R x y)
    (hno : ¬ q → P.rel w R u v) : P.rel w R (if q then x else u) (if q then y else v) := by
  split
  · exact hyes ‹_›
  · exact hno ‹_›

theorem arguments {reader : String → Nat → Except SyntaxError α} {shift : Nat → α → α} {A : α → Prop}
    (hr : Rebases reader shift) (hadd : Adds shift) {text : String} {span : Span}
    (hread : P.sited → FailsOnly (fun e => e.span.Fits P.first.source.chars) (reader text span.start) ∧
      Ensures A (reader text span.start)) :
    P.looks w (fun a b => b = shift P.offset a ∧ (P.sited → A a) ∧ reader text span.start = .ok a)
      (Compile.arguments reader text span) (Compile.arguments reader text (span.shift P.offset)) := by
  unfold Compile.arguments
  cases ha : reader text span.start with
  | error e => exact hP.throw (hP.ordinary (Diagnostic.ordinary_ofReading e) fun hp => (hread hp).1 e ha)
  | ok a =>
    obtain ⟨_, hb, rfl⟩ := hr.carries hadd text span.start P.offset a ha
    rw [show (span.shift P.offset).start = span.start + P.offset from rfl, hb]
    exact hP.pure ⟨rfl, rfl, fun hp => (hread hp).2 a ha, rfl⟩

theorem coerce {t t' : Typed} (ht : P.typed w t t') (span span' : Span) :
    P.looks w (P.typed w) (Compile.ofExcept (t.coerceTo .bool span)) (Compile.ofExcept (t'.coerceTo .bool span')) := by
  unfold Typed.coerceTo
  rw [ht.1]
  split
  · exact hP.pure ⟨rfl, ht⟩
  · exact hP.pure ⟨rfl, rfl, hP.toBool ht.2⟩

end Calculus

namespace Kept

variable (hP : P.Kept)
include hP

theorem elaborate {e : Expr} (he : P.Within e) :
    P.looks w (P.typed w) (Compile.elaborate e) (Compile.elaborate (e.shift P.offset)) := by
  refine hP.andThen (hP.read w) ?_
  rintro _ _ ⟨rfl, rfl⟩
  exact hP.elaborateWith w (s := id) (fun _ => rfl) he

theorem expressionWith {s : Bool → Bool} (hmono : s false = true → s true = true)
    {text : String} {span : Span} (h : P.Reads text span) :
    P.looks w (P.typed w) (Compile.expressionWith (s P.first.options.strict) text span)
      (Compile.expressionWith (s P.other.options.strict) text (span.shift P.offset)) := by
  have hread (hp : P.sited) := Expr.fits_readWhole .expression .afterExpression (h hp) Arguments.sited_takeExpr
  unfold Compile.expressionWith Setting.elaborateText
  cases he : Expr.ofText text span.start with
  | ok e =>
    obtain ⟨_, hb, rfl⟩ := Expr.rebases_ofText.carries Expr.adds_shift text span.start P.offset e he
    rw [show (span.shift P.offset).start = span.start + P.offset from rfl, hb]
    exact hP.elaborateWith w hmono fun hp => (hread hp).2 e he
  | error f =>
    refine hP.andThen (hP.setting w _ _) fun _ _ _ => ?_
    exact hP.throw (hP.ordinary (Diagnostic.ordinary_ofReading f) fun hp => (hread hp).1 f he)

theorem expression {text : String} {span : Span} (h : P.Reads text span) :
    P.looks w (P.typed w) (Compile.expression text span) (Compile.expression text (span.shift P.offset)) := by
  refine hP.andThen (hP.read w) ?_
  rintro _ _ ⟨rfl, rfl⟩
  exact hP.expressionWith (s := id) (fun _ => rfl) h

theorem predicate {text : String} {span : Span} (h : P.Reads text span) :
    P.looks w (P.typed w) (Compile.predicate text span) (Compile.predicate text (span.shift P.offset)) := by
  refine hP.andThen (hP.read w) ?_
  rintro _ _ ⟨rfl, rfl⟩
  dsimp only
  rw [hP.lenientPredicates]
  refine hP.andThen (hP.expressionWith (s := (· && !P.first.options.lenientPredicates)) (by simp) h) ?_
  exact fun _ _ ht => hP.coerce ht _ _

theorem splitOn (hi : i.Like P r i') (word : String) :
    P.looks w (fun a b => Section.Like P r a.1 b.1 ∧ Option.Rel (Section.Like P r) a.2 b.2) (i.splitOn word)
      (i'.splitOn word) := by
  obtain ⟨tag, ss⟩ := i
  obtain ⟨_, ss'⟩ := i'
  obtain ⟨hshown, rfl, hss⟩ := hi
  unfold Invocation.splitOn
  dsimp only at hshown hss ⊢
  cases hss with
  | nil => exact hP.refused rfl hshown.span
  | cons hfirst hss =>
    cases hss with
    | nil => exact hP.pure ⟨rfl, hfirst, .none⟩
    | @cons second second' ss ss' hsecond hss =>
      cases hss with
      | @cons third _ _ _ hthird _ =>
        refine hP.refused rfl ?_
        cases ht : third.control with
        | none => exact hshown.span
        | some t => exact (hthird.shown t ht).span
      | nil =>
        have hcontrol := hsecond.shown
        dsimp only
        rw [hsecond.control]
        cases ht : second.control with
        | none => exact hP.pure ⟨rfl, hfirst, .none⟩
        | some t =>
          dsimp only [Option.map_some]
          rw [Tag.name_shift, Tag.args_shift]
          split
          · exact hP.refused rfl (hcontrol t ht).span
          · split
            · exact hP.refused rfl (hcontrol t ht).args.span
            · exact hP.pure ⟨rfl, hfirst, .some hsecond⟩

theorem body (hi : i.Like P r i') {f : Fault} (hf : (f.classify == .internal) = false) :
    P.looks w (Section.Like P r) (i.body f) (i'.body f) := by
  obtain ⟨tag, ss⟩ := i
  obtain ⟨_, ss'⟩ := i'
  obtain ⟨hshown, rfl, hss⟩ := hi
  unfold Invocation.body
  dsimp only at hshown hss ⊢
  cases hss with
  | nil => exact hP.refused hf hshown.span
  | cons hfirst _ => exact hP.pure ⟨rfl, hfirst⟩

/-! ### Branches, repetition and blocks -/

theorem branch (word : String) {args : String} {argsSpan span : Span} (span' : Span) (hargs : P.Reads args argsSpan)
    (hspan : P.Has span) {s s' : Section} (hs : s.Like P (P.landing w) s') :
    P.rel w (fun w' a b => (∃ k, P.code w' k a.1 b.1) ∧ P.steps w' a.2 b.2) (Directive.branch word args argsSpan span s)
      (Directive.branch word args (argsSpan.shift P.offset) span' s') := by
  unfold Directive.branch
  split
  · exact hP.refused rfl hspan
  · refine hP.andThen (hP.predicate hargs) fun t t' ht => ?_
    exact hP.bind (hs.compile w rfl) fun w' hw' b b' hb => hP.pure ⟨⟨_, hP.code_after hw' ht.2⟩, hb⟩

theorem branches (htag : i'.tag = i.tag.shift P.offset) (hshown : P.Shows i.tag) {ss ss' : List Section}
    (hss : List.Forall₂ (Section.Like P r) ss ss') (hw : P.landing w = r) {fallback fallback' : Option Body}
    (hfallback : Option.Rel (P.steps w) fallback fallback') :
    P.rel w P.steps (Directive.branches i fallback ss) (Directive.branches i' fallback' ss') := by
  induction hss generalizing w fallback fallback' with
  | nil =>
    unfold Directive.branches
    cases hfallback with
    | none => exact hP.pure (hP.nil w)
    | some hb => exact hP.pure hb
  | @cons s s' ss ss' hs _ ih =>
    have hcontrol : s'.control.getD i'.tag = (s.control.getD i.tag).shift P.offset := by
      rw [hs.control, htag]
      cases s.control <;> rfl
    have hshows : P.Shows (s.control.getD i.tag) := by
      cases ht : s.control with
      | none => exact hshown
      | some t => exact hs.shown t ht
    unfold Directive.branches
    dsimp only
    rw [hcontrol, Tag.name_shift, Tag.args_shift]
    cases hfallback with
    | some hb => exact hP.refused rfl hshows.span
    | none =>
      dsimp only [Option.isSome_none]
      rw [if_neg Bool.false_ne_true]
      split
      · split
        · exact hP.refused rfl hshows.args.span
        · exact hP.bind (hs.compile w hw) fun w' hw' b b' hb => ih ((hP.landing_after hw').trans hw) (.some hb)
      · refine hP.bind (hP.branch _ _ hshows.args hshows.span (hw ▸ hs)) ?_
        rintro w' hw' a b ⟨⟨k, hcode⟩, hsteps⟩
        refine hP.bind (ih ((hP.landing_after hw').trans hw) .none) fun w'' hw'' no no' hno => ?_
        exact hP.pure (hP.cons (hP.choose (hP.code_after hw'' hcode) (hP.steps_after hw'' hsteps) hno) (hP.nil w''))

theorem conditional (hi : i.Like P (P.landing w) i') :
    P.rel w P.step (Directive.conditional.action i) (Directive.conditional.action i') := by
  have hsections := hi.sections
  dsimp only [Directive.conditional]
  rw [hi.tag]
  generalize i.sections = ss at hsections
  generalize i'.sections = ss' at hsections
  cases hsections with
  | nil => exact hP.refused rfl hi.shown.span
  | cons hfirst hmore =>
    dsimp only
    rw [hfirst.isEmpty]
    split
    · exact hP.refused rfl hi.shown.span
    · refine hP.bind (hP.branch _ _ hi.shown.args hi.shown.span hfirst) ?_
      rintro w' hw' a b ⟨⟨k, hcode⟩, hsteps⟩
      refine hP.bind (hP.branches hi.tag hi.shown hmore (hP.landing_after hw') .none) fun w'' hw'' no no' hno => ?_
      exact hP.pure (hP.choose (hP.code_after hw'' hcode) (hP.steps_after hw'' hsteps) hno)

theorem iteration (hi : i.Like P (P.landing w) i') :
    P.rel w P.step (Directive.iteration.action i) (Directive.iteration.action i') := by
  dsimp only [Directive.iteration]
  rw [hi.tag, Tag.args_shift, Tag.argsSpan_shift]
  split
  · exact hP.refused rfl hi.shown.span
  · refine hP.andThen (hP.expression hi.shown.args) fun source source' hsource => hP.andThen (hP.read w) ?_
    rintro _ _ ⟨rfl, rfl⟩
    rw [hP.host, hP.world, hsource.1]
    split
    · exact hP.refused rfl hi.shown.args.span
    · next element helement =>
      refine hP.andThen (hP.splitOn hi "else") ?_
      rintro ⟨first, otherwise⟩ ⟨first', otherwise'⟩ ⟨hfirst, hotherwise⟩
      have hbody := hfirst.compile (P.enter w element .readOnly) (hP.landing_enter w element (by decide))
      refine hP.bind (hP.frame (.inl ⟨rfl, _, _, _, hsource.2, helement⟩) hbody) fun w' hw' b b' hb => ?_
      have hcode := hP.code_after hw' hsource.2
      cases hotherwise with
      | none => exact hP.pure (hP.each hcode helement hb (hP.nil w'))
      | some hs =>
        refine hP.bind (hs.compile w' (hP.landing_after hw')) fun w'' hw'' f f' hf => hP.pure ?_
        exact hP.each (hP.code_after hw'' hcode) helement (hP.inner_after hw'' hb) hf

theorem block (hi : i.Like P .block i') :
    P.rel w P.step (Directive.block.action i) (Directive.block.action i') := by
  have hbody (kind : Kind) {c c' : Code} (hc : P.code w kind c c') : P.rel w P.step
      (do
        let s ← i.body (.requires "block" "a body")
        let body ← Compile.withFrame kind .declarations fun _ => s.compile
        return Step.block c body)
      (do
        let s ← i'.body (.requires "block" "a body")
        let body ← Compile.withFrame kind .declarations fun _ => s.compile
        return Step.block c' body) := by
    refine hP.andThen (hP.body hi rfl) fun s s' hs => ?_
    have hinner := hs.compile _ (hP.landing_block w kind)
    refine hP.bind (hP.frame (.inr ⟨rfl, _, _, hc⟩) hinner) fun w' hw' b b' hb => ?_
    exact hP.pure (hP.inside (hP.code_after hw' hc) hb)
  dsimp only [Directive.block]
  rw [hi.tag, Tag.args_shift, Tag.argsSpan_shift]
  split
  · rw [pure_bind, pure_bind]
    refine hP.andThen (hP.contextKind w) ?_
    rintro kind _ ⟨hkind, rfl⟩
    exact hbody _ (hP.context hkind)
  · rw [bind_map_left, bind_map_left]
    refine hP.andThen (hP.expression hi.shown.args) fun t t' ht => ?_
    dsimp only
    rw [pure_bind, pure_bind, ht.1]
    exact hbody t.kind ht.2

/-! ### Names -/

theorem checkBindings (before : List String) {bs : List LetBinding}
    (hbs : P.sited → ∀ b ∈ bs, b.Within (·.Fits P.first.source.chars)) :
    P.looks w (fun _ _ => (∀ b ∈ bs, P.free w b.name) ∧
        (∀ b ∈ bs, ∀ a ∈ before, sameName P.first.options.caseSensitive a b.name = false) ∧
        bs.Pairwise fun a b => sameName P.first.options.caseSensitive a.name b.name = false)
      (Directive.checkBindings before bs)
      (Directive.checkBindings before (bs.map (LetBinding.shift P.offset))) := by
  induction bs generalizing before with
  | nil => exact hP.pure ⟨rfl, by simp⟩
  | cons b bs ih =>
    have hspan : P.Has b.nameSpan := fun hp => (hbs hp b List.mem_cons_self).1
    rw [List.map_cons]
    unfold Directive.checkBindings
    refine hP.andThen (hP.expectNotLet w b.name _ hspan) fun _ _ hb => hP.andThen (hP.caseSensitive w) ?_
    rintro _ _ ⟨rfl, rfl⟩
    dsimp only [LetBinding.shift]
    refine Calculus.either (fun _ => hP.refused rfl hspan) fun hbefore => ?_
    refine hP.imp (ih (b.name :: before) fun hp x hx => hbs hp x (List.mem_cons_of_mem b hx)) ?_
    rintro _ _ _ ⟨rfl, hfree, hapart, hpairwise⟩
    refine ⟨rfl, List.forall_mem_cons.2 ⟨hb, hfree⟩, ?_, List.pairwise_cons.2 ⟨?_, hpairwise⟩⟩
    · refine List.forall_mem_cons.2 ⟨by simpa using hbefore, fun x hx a ha => ?_⟩
      exact hapart x hx a (List.mem_cons_of_mem _ ha)
    · exact fun x hx => hapart x hx b.name List.mem_cons_self

theorem bindingValues {bs : List LetBinding}
    (hbs : P.sited → ∀ b ∈ bs, b.Within (·.Fits P.first.source.chars)) :
    P.looks w (fun ts ts' => ts.length = bs.length ∧ List.Forall₂ (P.typed w) ts ts') (Directive.bindingValues bs)
      (Directive.bindingValues (bs.map (LetBinding.shift P.offset))) := by
  induction bs with
  | nil => exact hP.pure ⟨rfl, rfl, .nil⟩
  | cons b bs ih =>
    rw [List.map_cons]
    unfold Directive.bindingValues
    refine hP.andThen (hP.elaborate fun hp => (hbs hp b List.mem_cons_self).2) fun t t' ht => ?_
    refine hP.andThen (ih fun hp x hx => hbs hp x (List.mem_cons_of_mem b hx)) fun ts ts' hts => ?_
    exact hP.pure ⟨rfl, congrArg Nat.succ hts.1, .cons ht hts.2⟩

omit hP in
theorem zipWith_kinds {bs : List LetBinding} {ts ts' : List Typed} (h : List.Forall₂ (P.typed w) ts ts') :
    List.zipWith (fun b v => (b.name, v.kind)) (bs.map (LetBinding.shift P.offset)) ts' =
      List.zipWith (fun b v => (b.name, v.kind)) bs ts := by
  induction h generalizing bs with
  | nil => simp
  | cons ht _ ih =>
    cases bs with
    | nil => rfl
    | cons b bs =>
      rw [List.map_cons, List.zipWith_cons_cons, List.zipWith_cons_cons, ht.1, ih]
      rfl

omit hP in
theorem names_zipWith (bs : List LetBinding) (vs : List Typed) :
    ((List.zipWith (fun b v => (b.name, v.kind)) bs vs).map Prod.fst).Sublist (bs.map (·.name)) := by
  induction bs generalizing vs with
  | nil => simp
  | cons b bs ih =>
    cases vs with
    | nil => simp
    | cons v vs => simpa using (ih vs).cons_cons b.name

omit hP in
theorem kinds_zipWith {bs : List LetBinding} {vs : List Typed} (h : vs.length = bs.length) :
    (List.zipWith (fun b v => (b.name, v.kind)) bs vs).map Prod.snd = vs.map (·.kind) := by
  induction bs generalizing vs with
  | nil => rw [List.length_eq_zero_iff.1 h, List.zipWith_nil_left, List.map_nil, List.map_nil]
  | cons b bs ih =>
    cases vs with
    | nil => cases h
    | cons v vs => rw [List.zipWith_cons_cons, List.map_cons, List.map_cons, ih (Nat.succ.inj h)]

theorem letBlock (hi : i.Like P (P.landing w) i') :
    P.rel w P.step (Directive.letBlock.action i) (Directive.letBlock.action i') := by
  dsimp only [Directive.letBlock]
  rw [hi.tag, Tag.args_shift, Tag.argsSpan_shift]
  split
  · exact hP.refused rfl hi.shown.span
  · refine hP.andThen (hP.arguments Arguments.rebases_readLetBindings LetBinding.adds_shift.map fun hp =>
      Expr.fits_readWhole .binding .afterBinding (hi.shown.args hp) Arguments.sited_takeBindings) ?_
    rintro bs _ ⟨rfl, hbs, -⟩
    refine hP.andThen (hP.checkBindings [] hbs) ?_
    rintro - - ⟨hfree, -, hapart⟩
    refine hP.andThen (hP.bindingValues hbs) ?_
    rintro values values' ⟨hlength, hvalues⟩
    refine hP.andThen (hP.body hi rfl) fun s s' hs => hP.andThen (hP.contextKind w) ?_
    rintro kind _ ⟨hkind, rfl⟩
    rw [zipWith_kinds hvalues]
    have hnames := names_zipWith bs values
    have hfree' : ∀ name ∈ (List.zipWith (fun b v => (b.name, v.kind)) bs values).map Prod.fst, P.free w name := by
      intro name hname
      obtain ⟨b, hb, rfl⟩ := List.mem_map.1 (hnames.subset hname)
      exact hfree b hb
    have hkinds : ∀ k ∈ (List.zipWith (fun b v => (b.name, v.kind)) bs values).map Prod.snd,
        ∃ c c', P.code w k c c' := by
      rw [kinds_zipWith hlength, List.forall_mem_map]
      exact ((List.forall₂_and_left _ _).1 (hvalues.imp fun _ _ ht => ⟨⟨_, _, ht.2⟩, ht⟩)).1
    refine hP.bind (hP.letFrame hkind hkinds hfree' ((List.pairwise_map.2 hapart).sublist hnames) hs.compile) ?_
    rintro w' hw' ⟨slots, b⟩ ⟨slots', b'⟩ ⟨hslots, hb⟩
    dsimp only at hslots
    rw [kinds_zipWith hlength] at hslots
    have hafter := hvalues.imp fun _ _ ht => And.intro ht.1 (hP.code_after hw' ht.2)
    exact hP.pure (hP.lets (hP.own_after hw' hkind) hslots hafter hb)

theorem bodyParts (hi : i.Like P (P.landing w) i') : P.rel w P.parts (Directive.parts i) (Directive.parts i') := by
  refine hP.andThen (hP.splitOn hi "out") ?_
  rintro ⟨s, emit⟩ ⟨s', emit'⟩ ⟨hs, hemit⟩
  cases hemit with
  | none => exact hP.bind (hs.compile w rfl) fun w' _ _ _ hb => hP.pure ⟨hP.nil w', hb⟩
  | some hemit =>
    refine hP.bind (hs.compile w rfl) fun w' hw' b b' hb => ?_
    refine hP.bind (hemit.compile w' (hP.landing_after hw')) fun w'' hw'' _ _ hb' => ?_
    exact hP.pure ⟨hP.steps_after hw'' hb, hb'⟩

theorem checkParameters (before : List String) {ps : List Expr.Segment} (hps : ∀ x ∈ ps, P.Has x.span) :
    P.looks w (fun _ _ => ∀ x ∈ ps, P.free w x.name) (Directive.checkParameters before ps)
      (Directive.checkParameters before (ps.map (Expr.Segment.shift P.offset))) := by
  induction ps generalizing before with
  | nil => exact hP.pure ⟨rfl, by simp⟩
  | cons x ps ih =>
    obtain ⟨hspan, hps⟩ := List.forall_mem_cons.1 hps
    rw [List.map_cons]
    unfold Directive.checkParameters
    refine hP.andThen (hP.caseSensitive w) ?_
    rintro _ _ ⟨rfl, rfl⟩
    refine Calculus.either (fun _ => hP.refused rfl hspan) fun _ => ?_
    refine hP.andThen (hP.expectNotLet w x.name _ hspan) fun _ _ hx => hP.imp (ih (x.name :: before) hps) ?_
    rintro _ _ _ ⟨rfl, hfree⟩
    exact ⟨rfl, List.forall_mem_cons.2 ⟨hx, hfree⟩⟩

theorem defineFragment (hi : i.Like P (P.landing w) i') (hname : i.tag.name = "define")
    (hpermits : P.permits (P.landing w) i.tag) {name : String} (hfree : P.free w name) {params : List Expr.Segment}
    (hps : ∀ x ∈ params, P.Has x.span) :
    P.rel w P.step (Directive.defineFragment i name params)
      (Directive.defineFragment i' name (params.map (Expr.Segment.shift P.offset))) := by
  unfold Directive.defineFragment
  rw [← List.map_drop]
  cases hdrop : params.drop Directive.parameterLimit with
  | cons x xs => exact hP.refused rfl (hps x (List.mem_of_mem_drop (hdrop ▸ List.mem_cons_self)))
  | nil =>
    dsimp only [List.map_nil]
    refine hP.andThen (hP.checkParameters [] hps) fun _ _ hparams => ?_
    have hnames : (params.map (Expr.Segment.shift P.offset)).map (fun x => (x.name, Kind.any)) =
        params.map fun x => (x.name, Kind.any) := by
      rw [List.map_map]
      rfl
    rw [hnames]
    refine hP.fragment hname hpermits hfree ?_ ?_ fun v hv => hP.bodyParts (hv ▸ hi)
    · simpa using hparams
    · simp

theorem define (hi : i.Like P (P.landing w) i') (hname : i.tag.name = "define")
    (hpermits : P.permits (P.landing w) i.tag) :
    P.rel w P.step (Directive.define.action i) (Directive.define.action i') := by
  dsimp only [Directive.define]
  rw [hi.tag, Tag.args_shift, Tag.argsSpan_shift]
  split
  · exact hP.refused rfl hi.shown.span
  · refine hP.andThen (hP.arguments Arguments.rebases_readDefineHead DefineHead.adds_shift fun hp =>
      Expr.fits_readWhole .name .afterHead (hi.shown.args hp) Arguments.sited_takeHead) ?_
    rintro ⟨name, nameSpan, form⟩ _ ⟨rfl, hhead, hread⟩
    refine hP.andThen (hP.expectNotLet w name _ fun hp => (hhead hp).1) fun _ _ hfree => ?_
    have hwrite := Tag.write?_define hname hread
    cases form with
    | value lenient e =>
      dsimp only [DefineHead.shift, DefineForm.shift]
      split
      · refine hP.andThen (hP.elaborateWith w (s := fun _ => false) (fun h => h) fun hp => (hhead hp).2) fun t t' ht => ?_
        exact hP.bindValue hname hpermits hwrite hfree (hP.refl w) ht
      · refine hP.andThen (hP.elaborate fun hp => (hhead hp).2) fun t t' ht => ?_
        exact hP.bindValue hname hpermits hwrite hfree (hP.refl w) ht
    | body params =>
      cases params with
      | none =>
        refine hP.bind (hP.bodyParts hi) fun w' hw' a b hab => ?_
        have hpermits' := hP.landing_after hw' ▸ hpermits
        exact hP.bindValue hname hpermits' hwrite hfree hw' ⟨rfl, hP.rendered hname hpermits' hab⟩
      | some params => exact hP.defineFragment hi hname hpermits hfree fun x hx hp => (hhead hp).2 params rfl x hx

/-! ### Text, checks and settings -/

theorem literal (htexts : i'.sections.map (·.text) = i.sections.map (·.text)) (hshown : P.Shows i.tag)
    (htag : i'.tag = i.tag.shift P.offset) :
    P.rel w P.step (Directive.literal.action i) (Directive.literal.action i') := by
  dsimp only [Directive.literal]
  unfold Invocation.expectNoArgs
  rw [htag, Tag.args_shift, htexts]
  split
  · exact hP.pure (hP.text w _)
  · exact hP.refused rfl hshown.args.span

theorem assertion (hi : i.Like P r i') :
    P.rel w P.step (Directive.assertion.action i) (Directive.assertion.action i') := by
  dsimp only [Directive.assertion]
  rw [hi.tag, Tag.args_shift, Tag.argsSpan_shift]
  split
  · exact hP.refused rfl hi.shown.span
  · refine hP.andThen (hP.arguments Arguments.rebases_readAssertion Arguments.adds_assertion fun hp =>
      Expr.fits_readWhole .predicate .afterAssertion (hi.shown.args hp) Arguments.sited_takeAssertion) ?_
    rintro ⟨test, message⟩ _ ⟨rfl, hparts, -⟩
    refine hP.andThen (hP.read w) ?_
    rintro _ _ ⟨rfl, rfl⟩
    dsimp only [Prod.map]
    rw [Expr.span_shift, hP.snippet fun hp => (hparts hp).1]
    refine hP.andThen (hP.elaborate fun hp => (hparts hp).1) fun t t' ht => ?_
    refine hP.andThen (hP.coerce ht _ _) fun u u' hu => ?_
    cases message with
    | none => exact hP.pure (hP.assert hu.2 (hP.message w _))
    | some e =>
      refine hP.andThen (hP.elaborate fun hp => (hparts hp).2 e rfl) fun m m' hm => ?_
      exact hP.pure (hP.assert hu.2 hm.2)

theorem failure (hi : i.Like P (P.landing w) i') :
    P.rel w P.step (Directive.failure.action i) (Directive.failure.action i') := by
  dsimp only [Directive.failure]
  rw [hi.tag, Tag.args_shift]
  split
  · exact hP.pure (hP.raise w _)
  · refine hP.andThen (hP.body hi rfl) fun s s' hs => ?_
    exact hP.bind (hs.compile w rfl) fun w' _ b b' hb => hP.pure (hP.raiseText hb)

theorem pragma (hi : i.Like P r i') (hname : i.tag.name = "pragma") (hpermits : P.permits (P.landing w) i.tag) :
    P.rel w P.step (Directive.pragma.action i) (Directive.pragma.action i') := by
  dsimp only [Directive.pragma]
  rw [hi.tag, Tag.args_shift]
  split
  · exact hP.refused rfl hi.shown.span
  · split
    · split
      · exact hP.pure (hP.passCap _ hname hpermits)
      · exact hP.refused rfl hi.shown.args.span
    · refine hP.andThen (hP.read w) ?_
      rintro _ _ ⟨rfl, rfl⟩
      rw [hP.host]
      split
      · exact hP.pure (hP.tell _ hname hpermits)
      · exact hP.pure (hP.text w _)

theorem using_ (hi : i.Like P r i') (hname : i.tag.name = "using") (hpermits : P.permits (P.landing w) i.tag) :
    P.rel w P.step (Directive.using_.action i) (Directive.using_.action i') := by
  dsimp only [Directive.using_]
  rw [hi.tag, Tag.args_shift, Tag.argsSpan_shift]
  split
  · exact hP.refused rfl hi.shown.span
  · refine hP.andThen (hP.arguments (A := fun _ => True) Arguments.rebases_readNamespace Expr.Segment.adds_shift fun hp =>
      ⟨(Expr.fits_readWhole .ofNamespace .afterNamespace (hi.shown.args hp) Arguments.sited_takeSegments).1.map,
        fun _ _ => trivial⟩) ?_
    rintro ⟨name, span⟩ _ ⟨rfl, -⟩
    exact hP.bind (hP.addNamespace _ hname hpermits) fun w' _ _ _ _ => hP.pure (hP.text w' _)

end Kept

end Simulation

def Landing.within (r : Landing) (tag : Tag) : Landing :=
  if Directives.confining.contains tag.name then .block else r

theorem Registry.mem_of_foldl_insert {α : Type} {ds : List (Directive α)} {r : Registry α} {name : String}
    {d : Directive α} (h : (name, d) ∈ (ds.foldl Registry.insert r).directives.entries) :
    (name, d) ∈ r.directives.entries ∨ d ∈ ds := by
  induction ds generalizing r with
  | nil => exact .inl h
  | cons x ds ih =>
    rcases ih h with h | h
    · exact (Table.mem_set h).imp_right (by rintro ⟨⟩; exact List.mem_cons_self)
    · exact .inr (List.mem_cons_of_mem x h)

/-- A standard directive keeps what its sections keep; those of a body that is not read as template text need not. -/
theorem Directives.kept_standard (hP : P.Kept) {tag : Tag} {D : Directive (Invocation → Compile Step)}
    (h : Directives.standard.get? tag.name = some D) (hshown : P.Shows tag) (hpermits : P.permits (P.landing w) tag)
    {ss ss' : List Section} (hss : D.body tag.args = .verbatim ∧ ss'.map (·.text) = ss.map (·.text) ∨
      List.Forall₂ (Section.Like P ((P.landing w).within tag)) ss ss') :
    P.rel w P.step (D.action ⟨tag, ss⟩) (D.action ⟨tag.shift P.offset, ss'⟩) := by
  have hname := name_of_get? h
  have htexts := hss.elim And.right Section.Like.texts
  replace hss := hss.imp_left And.left
  unfold Landing.within at hss
  rw [← hname] at hss
  have hlike {r : Landing} (hss : List.Forall₂ (Section.Like P r) ss ss') :
      Invocation.Like P r ⟨tag, ss⟩ ⟨tag.shift P.offset, ss'⟩ := ⟨hshown, rfl, hss⟩
  obtain ⟨⟨key, D⟩, hD, rfl⟩ := Option.map_eq_some_iff.1 h
  have hmem := (Registry.mem_of_foldl_insert (List.mem_of_find?_eq_some hD)).resolve_left List.not_mem_nil
  simp only [List.mem_cons, List.not_mem_nil, or_false] at hmem
  obtain rfl | rfl | rfl | rfl | rfl | rfl | rfl | rfl | rfl | rfl | rfl | rfl := hmem
  · exact hP.conditional (hlike (hss.resolve_left nofun))
  · exact hP.iteration (hlike (hss.resolve_left nofun))
  · exact hP.block (hlike (hss.resolve_left nofun))
  · exact hP.letBlock (hlike (hss.resolve_left nofun))
  · refine hP.define (hlike (hss.resolve_left ?_)) hname.symm hpermits
    dsimp only [Directive.define]
    split <;> decide
  · exact hP.undef hname.symm hpermits hshown rfl
  · exact hP.literal htexts hshown rfl
  · exact hP.pure (hP.text w "")
  · exact hP.assertion (hlike (hss.resolve_left nofun))
  · refine hP.failure (hlike (hss.resolve_left ?_))
    dsimp only [Directive.failure]
    split <;> decide
  · exact hP.pragma (hlike (hss.resolve_left nofun)) hname.symm hpermits
  · exact hP.using_ (hlike (hss.resolve_left nofun)) hname.symm hpermits

def Registry.isVerbatim {α : Type} (reg : Registry α) (tag : Tag) : Bool :=
  (reg.get? tag.name).any fun d => d.body tag.args = .verbatim

namespace Compile

theorem kept_expr (hP : P.Kept) {text : String} {span : Span} (h : P.Reads text span) :
    P.rel w P.step (do return .emit (← expression text span).code)
      (do return .emit (← expression text (span.shift P.offset)).code) :=
  hP.andThen (hP.expression h) fun _ _ ht => hP.pure (hP.emit ht.2)

theorem kept_directive (hP : P.Kept) {tag : Tag} (hshown : P.Shows tag) (hpermits : P.permits (P.landing w) tag)
    {ss ss' : List Section} (hss : Directives.standard.isVerbatim tag = true ∧ ss'.map (·.text) = ss.map (·.text) ∨
      List.Forall₂ (Section.Like P ((P.landing w).within tag)) ss ss') :
    P.rel w P.step (directive .standard tag ss) (directive .standard (tag.shift P.offset) ss') := by
  unfold directive
  rw [Tag.name_shift]
  cases hD : Directives.standard.get? tag.name with
  | none =>
    exact hP.throw (hP.ordinary (Registry.ordinary_unknown _ tag) fun hp => Registry.fits_unknown _ (hshown hp))
  | some D =>
    have hbody (h : Directives.standard.isVerbatim tag = true) : D.body tag.args = .verbatim := by
      unfold Registry.isVerbatim at h
      rw [hD] at h
      simpa using h
    exact hP.checked (fun after depth => .of (.unbalanced tag.name after depth) tag.span)
      (fun after depth => .of (.unbalanced tag.name after depth) (tag.shift P.offset).span)
      (Directives.kept_standard hP hD hshown hpermits (hss.imp_left (And.imp_left hbody)))

/-! Where every directive is permitted, whole texts are compiled alike. -/

mutual

theorem kept_node (hP : P.Kept) (hpermits : ∀ r tag, P.permits r tag) : (nd : Node) →
    (P.sited → nd.In P.first.source.chars) → (∀ d ∈ nd.faults, P.Has d.span → P.admits d) →
    ∀ w, P.rel w P.step (node .standard nd) (node .standard (nd.shift P.offset))
  | .text t, _, _, w => by
    rw [Node.shift, node]
    exact hP.pure (hP.text w t)
  | .expr text span, hin, _, w => by
    rw [Node.In] at hin
    rw [Node.shift, node, node]
    exact kept_expr hP hin
  | .directive tag ss, hin, h, w => by
    rw [Node.In] at hin
    rw [Node.faults] at h
    rw [Node.shift, node, node]
    have hsections := kept_sections hP hpermits ss (fun hp => (hin hp).2) h ((P.landing w).within tag)
    exact kept_directive hP (fun hp => (hin hp).1) (hpermits _ _) (.inr hsections)
  | .fault d, hin, h, w => by
    rw [Node.In] at hin
    rw [Node.shift, node, node]
    exact hP.throw (h d (by rw [Node.faults]; exact List.mem_cons_self) hin)

theorem kept_nodes (hP : P.Kept) (hpermits : ∀ r tag, P.permits r tag) : (ns : List Node) →
    (P.sited → Node.AllIn P.first.source.chars ns) → (∀ d ∈ Node.faultsAll ns, P.Has d.span → P.admits d) →
    ∀ w, P.rel w P.steps (nodes .standard ns) (nodes .standard (Node.shiftAll P.offset ns))
  | [], _, _, w => by
    rw [Node.shiftAll, nodes]
    exact hP.pure (hP.nil w)
  | nd :: ns, hin, h, w => by
    rw [Node.AllIn] at hin
    rw [Node.faultsAll] at h
    obtain ⟨hnd, hns⟩ := List.forall_mem_append.1 h
    rw [Node.shiftAll, nodes, nodes]
    refine hP.bind (kept_node hP hpermits nd (fun hp => (hin hp).1) hnd w) fun w' _ s s' hs => ?_
    refine hP.bind (kept_nodes hP hpermits ns (fun hp => (hin hp).2) hns w') fun w'' hw'' ss ss' hss => ?_
    exact hP.pure (hP.cons (hP.step_after hw'' hs) hss)

theorem kept_sections (hP : P.Kept) (hpermits : ∀ r tag, P.permits r tag) : (ss : List DocSection) →
    (P.sited → DocSection.AllIn P.first.source.chars ss) →
    (∀ d ∈ DocSection.faults ss, P.Has d.span → P.admits d) →
    ∀ r, List.Forall₂ (Section.Like P r) (sections .standard ss)
      (sections .standard (DocSection.shiftAll P.offset ss))
  | [], _, _, _ => by
    rw [DocSection.shiftAll, sections]
    exact .nil
  | .mk control span text ns :: ss, hin, h, r => by
    rw [DocSection.AllIn] at hin
    rw [DocSection.faults] at h
    obtain ⟨hns, hss⟩ := List.forall_mem_append.1 h
    have hempty : (span.shift P.offset).isEmpty = span.isEmpty := by simp [Span.isEmpty, Span.shift]
    rw [DocSection.shiftAll, DocSection.shift, sections, sections]
    refine .cons ⟨rfl, fun t ht hp => (hin hp).1 t ht, hempty, rfl, fun w _ => ?_⟩
      (kept_sections hP hpermits ss (fun hp => (hin hp).2.2) hss r)
    exact hP.bind (kept_nodes hP hpermits ns (fun hp => (hin hp).2.1) hns w) fun _ _ _ _ hb => hP.pure (hP.ofSteps hb)

end

end Compile

end Stencil
