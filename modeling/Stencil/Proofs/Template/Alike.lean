import Stencil.Proofs.Template.Tandem
import Stencil.Proofs.Typing.Alike
/-!
A template that compiles also compiles when names need no longer resolve, to steps that are alike. Compiling
leaves the frames as they were, and gives out slots only. Steps change variables of the outermost context only, those
that directives outside all blocks name.
-/
set_option autoImplicit false

namespace Stencil

/-- Two compilers of which the second is no stricter and otherwise the same, and how alike is what they make of text
with given effects on variables. Each may put a probe before every step. -/
structure Easing (ws : List Write) where
  likeness : Likeness
  compiler : Compiler
  strict : Bool
  eased : strict = true → compiler.options.strict = true
  late : ∀ c name cs a b, (b = true → a = true) → (strict = compiler.options.strict → b = a) →
    likeness.late c name cs a b
  texts : likeness.texts
  types : ∀ k t, compiler.host.describe compiler.world k = some t → likeness.Takes t
  resolvers : ∀ f ∈ compiler.resolvers, strict = compiler.options.strict ∧ f.Blind likeness
  writes : ∀ x ∈ ws, likeness.writes 0 x
  probes : Bool
  probes' : Bool
  probed : probes = true → probes' = true

variable {ws : List Write}

def Easing.other (p : Easing ws) : Compiler :=
  { p.compiler with options := { p.compiler.options with strict := p.strict } }

variable {p : Easing ws} {r : Landing} {σ : List SlotUse} {d : Nat}

namespace Body

theorem ofSteps_alike {ss ss' : List Step} (h : Step.AlikeAll p.likeness σ d ss ss') :
    Step.AlikeAll p.likeness σ d (ofSteps ss) (ofSteps ss') := by
  induction ss' generalizing ss with
  | nil => cases h; exact .nil
  | cons s' ss' ih =>
    cases h with
    | probed hss => exact .probed (ih hss)
    | cons hs hss =>
      have ih := ih hss
      have hstep := hs
      unfold ofSteps at ih ⊢
      cases hs with
      | text t =>
        rw [List.filter_cons, List.filter_cons]
        dsimp only
        split
        · exact .cons hstep ih
        · exact ih
      | _ => exact .cons hstep ih

end Body

/-- How far compiling has come: where definitions land, what the slots are kept for that were given out, and which
frames are around. -/
structure Standing where
  landing : Landing
  uses : List SlotUse
  shape : List (Kind × BinderKind)

namespace Standing

abbrev depth (w : Standing) : Nat := w.shape.length

structure Scopes (l : Likeness) (w : Standing) (s s' : Scope) : Prop where
  alike : Scope.Alike l w.uses s s'
  shape : s.shape = w.shape
  landing : w.landing.Holds s

theorem Scopes.depth {l : Likeness} {w : Standing} {s s' : Scope} (h : w.Scopes l s s') : s.depth = w.depth := by
  rw [Standing.depth, ← h.shape, Scope.shape, List.length_map, Scope.length_frames]

end Standing

namespace Easing

/-- Compiling leaves the frames as they were and gives out slots; what it makes is alike. -/
def tandem (p : Easing ws) : Tandem where
  first := p.compiler
  other := p.other
  offset := 0
  sited := False
  Stage := Standing
  After v w := ∃ σ, v.uses <+: σ ∧ w = { v with uses := σ }
  enter w kind binder := ⟨if binder = .declarations then .block else w.landing, w.uses, (kind, binder) :: w.shape⟩
  landing := Standing.landing
  admits _ := True
  permits r tag := r = .outermost → ∀ x ∈ tag.write?, x ∈ ws
  free _ _ := True
  own w _ := 0 < w.depth
  code w _ := Code.Alike p.likeness w.uses w.depth
  slots w _ ns ns' := ns' = ns ∧ ∀ n ∈ ns, w.uses[n]? = some .value
  step w := Step.Alike p.likeness w.uses w.depth
  steps w := Step.AlikeAll p.likeness w.uses w.depth
  scopes := Standing.Scopes p.likeness
  binds w := Binding.Alike p.likeness w.uses
  value w _ n n' := n' = n ∧ w.uses[n]? = some .value
  contexts w n n' := n' = n ∧ w.uses[n]? = some (.contexts w.depth)

/-- What holds of the outermost frame holds of every frame that passes definitions on to variables. -/
theorem allowed_of_dynamic {w : Standing} {s s' : Scope} {x : Write} (hs : w.Scopes p.likeness s s')
    (hx : w.landing = .outermost → x ∈ ws) (hdynamic : s.binder? s.declarationFrame = some .dynamic) :
    p.likeness.writes s.declarationFrame x := by
  have hr := hs.landing
  cases hlanding : w.landing with
  | block =>
    rw [hlanding] at hr
    exact absurd hdynamic hr
  | outermost =>
    rw [hlanding] at hr
    rw [show s.declarationFrame = 0 from hr]
    exact p.writes x (hx hlanding)

theorem allocate {w : Standing} {s s' : Scope} (hs : w.Scopes p.likeness s s') (u : SlotUse) :
    ∃ w', p.tandem.After w w' ∧ w'.Scopes p.likeness s.allocate.2 s'.allocate.2 ∧ s'.slots = s.slots ∧
      w'.uses[s.slots]? = some u := by
  refine ⟨{ w with uses := w.uses ++ [u] }, ⟨_, List.prefix_append _ _, rfl⟩,
    ⟨hs.alike.allocate u, hs.shape, hs.landing.of_shape rfl⟩, hs.alike.slots'.trans hs.alike.slots.symm, ?_⟩
  rw [hs.alike.slots]
  exact List.getElem?_concat_length

theorem elaborate {w : Standing} {n n' : Names} {s : Bool → Bool} (hn : p.tandem.Agree w n n')
    (hmono : s false = true → s true = true) (e : Expr) :
    Tracks (p.tandem.typed w) ((p.compiler.settingAt n (s p.compiler.options.strict)).elaborate e)
      ((p.other.settingAt n' (s p.strict)).elaborate e) := by
  have hs : Setting.Alike p.likeness w.uses (p.compiler.settingAt n (s p.compiler.options.strict)) n'.scope
      (s p.strict) := by
    refine ⟨hn.1.alike, ?_, fun f hf => ?_, p.types⟩
    · intro hstrict
      have heased := p.eased
      revert hstrict heased hmono
      unfold Compiler.settingAt
      cases p.strict <;> cases p.compiler.options.strict <;> simp +contextual
    · obtain ⟨hsame, hblind⟩ := p.resolvers f hf
      exact ⟨congrArg s hsame, hblind⟩
  have hother : p.other.settingAt n' (s p.strict) =
      (p.compiler.settingAt n (s p.compiler.options.strict)).under n'.scope (s p.strict) := by
    unfold Compiler.settingAt
    rw [hn.2]
    rfl
  have hsame (h : p.strict = p.compiler.options.strict) : s p.strict = s p.compiler.options.strict := congrArg s h
  rw [hother]
  intro t ht
  obtain ⟨t', ht', hkind, hcode⟩ := hs.elaborate (fun c n => p.late c n _ _ _ hs.eased hsame) e
    (fun n _ _ => p.late _ n _ _ _ id fun _ => rfl) t ht
  refine ⟨t', ht', hkind, ?_⟩
  rwa [show (p.compiler.settingAt n _).scope.depth = w.depth from hn.1.depth] at hcode

theorem lawful (p : Easing ws) : p.tandem.Lawful where
  context := .context
  message w s := .const (.text s)
  toBool := .toBool
  text w s := .text s
  emit := .emit
  choose := .choose
  each hc _ := .each hc
  inside := .block
  lets _ hslots hts hb := by
    obtain ⟨rfl, hslots⟩ := hslots
    refine .bind hslots (.of_forall₂ ?_) hb
    rw [List.forall₂_map_left_iff, List.forall₂_map_right_iff]
    exact hts.imp fun _ _ ht => ht.2
  assert := .assert
  raise w := .raise
  raiseText := .raiseText
  rendered _ _ h := .rendered p.texts h.1 h.2
  passCap n _ _ := .passCap n
  tell s _ _ := .pragma s
  refl w := ⟨w.uses, List.prefix_refl _, rfl⟩
  trans := by
    rintro u _ _ ⟨σ, hσ, rfl⟩ ⟨σ', hσ', rfl⟩
    exact ⟨σ', hσ.trans hσ', rfl⟩
  landing_after := by
    rintro v _ ⟨σ, -, rfl⟩
    rfl
  landing_enter w kind binder h := if_neg h
  landing_block w kind := rfl
  own_after := by
    rintro v _ k ⟨σ, hσ, rfl⟩ hk
    exact hk
  code_after := by
    rintro v _ k c c' ⟨σ, hσ, rfl⟩ hc
    exact hc.mono (.refl _) hσ
  step_after := by
    rintro v _ s s' ⟨σ, hσ, rfl⟩ hs
    exact hs.mono (.refl _) hσ
  steps_after := by
    rintro v _ ss ss' ⟨σ, hσ, rfl⟩ hss
    exact hss.mono (.refl _) hσ
  inner_after := by
    rintro v _ kind ss ss' ⟨σ, hσ, rfl⟩ hss
    exact hss.mono (.refl _) hσ
  nil w := .nil
  cons := .cons
  ofSteps := Body.ofSteps_alike
  ordinary _ _ := trivial
  host := rfl
  world := rfl
  snippet _ := rfl
  lenientPredicates := rfl
  caseSensitive := rfl
  free _ _ := trivial
  own hs := ⟨Nat.lt_of_lt_of_eq (Nat.succ_pos _) hs.depth, hs.alike.current.context⟩
  depth hs := hs.alike.depth
  balanced _ _ _ := .inr fun _ => trivial
  declarationFrame hs := hs.alike.declarationFrame
  binder? i hs := hs.alike.binder? i
  letOwner? cs name hs := hs.alike.letOwner? cs name
  lookup cs name hs := rel_imp (hs.alike.lookup _ _ cs name) fun _ _ h => ⟨h.1, h.2.akin⟩
  push := by
    rintro w s s' kind binder hbinder ⟨hs, hshape, hlanding⟩
    refine ⟨hs.push kind binder, congrArg ((kind, binder) :: ·) hshape, ?_⟩
    rcases hbinder with (⟨rfl, -⟩ | ⟨rfl, -⟩) | ⟨-, rfl | rfl⟩
    · exact hlanding.push kind rfl
    · exact Landing.holds_block s kind
    · exact hlanding.push kind rfl
    · exact hlanding.push kind rfl
  pop := by
    rintro w _ s s' t t' kind binder hs ⟨σ, hσ, rfl⟩ ht
    have hshape : t.pop.shape = s.shape :=
      Scope.shape_pop (ht.shape.trans (congrArg ((kind, binder) :: ·) hs.shape.symm))
    exact ⟨{ w with uses := σ }, ⟨σ, hσ, rfl⟩, ⟨ht.alike.pop, hshape.trans hs.shape, hs.landing.of_shape hshape⟩, rfl⟩
  declare i name hs hb :=
    have hshape := Scope.shape_declare _ i name _
    ⟨hs.alike.declare i name hb, hshape.trans hs.shape, hs.landing.of_shape hshape⟩
  remove i cs name hs :=
    have hshape := Scope.shape_remove _ i cs name
    ⟨hs.alike.remove i cs name, hshape.trans hs.shape, hs.landing.of_shape hshape⟩
  allocateValue _ hs := allocate hs .value
  allocateContexts {w s s'} hs := by
    obtain ⟨_, ⟨σ, hσ, rfl⟩, h⟩ := allocate hs (.contexts w.depth)
    exact ⟨_, ⟨σ, hσ, rfl⟩, h⟩
  value_after := by
    rintro v _ kind n n' ⟨σ, hσ, rfl⟩ ⟨rfl, hn⟩
    exact ⟨rfl, SlotUse.getElem?_of_prefix hσ hn⟩
  contexts_after := by
    rintro v _ n n' ⟨σ, hσ, rfl⟩ ⟨rfl, hn⟩
    exact ⟨rfl, SlotUse.getElem?_of_prefix hσ hn⟩
  slots_nil _ := ⟨rfl, by simp⟩
  slots_cons := by
    rintro w kind kinds n _ ns _ ⟨rfl, hn⟩ ⟨rfl, hns⟩
    exact ⟨rfl, List.forall_mem_cons.2 ⟨hn, hns⟩⟩
  slots_after := by
    rintro v _ kinds ns _ ⟨σ, hσ, rfl⟩ ⟨rfl, hns⟩
    exact ⟨rfl, fun n hn => SlotUse.getElem?_of_prefix hσ (hns n hn)⟩
  slots_leave h := h
  ofSlot := by
    rintro w kind n _ origin ⟨rfl, hn⟩
    exact .slot kind origin hn
  ofVariable name kind _ _ := .ofVariable _ name kind
  ofFragment := by
    rintro w kind kinds n _ ns _ compute compute' emit emit' name - ⟨rfl, hn⟩ - ⟨rfl, hns⟩ hcompute hemit
    exact .fragment (f := ⟨name, _, _, compute, emit⟩) hns hn hcompute hemit
  ofHidden _ := .hidden
  setSlot := by
    rintro w kind n _ c c' ⟨rfl, hn⟩ hc
    exact .setSlot hn hc
  setVariable hs hdynamic hpermits hwrite hc :=
    .setVariable (allowed_of_dynamic hs (fun hr => hpermits hr _ hwrite) hdynamic) hc
  unsetVariable hs hdynamic hpermits hwrite :=
    .unsetVariable (allowed_of_dynamic hs (fun hr => hpermits hr _ hwrite) hdynamic)
  snapshot := by
    rintro w n _ ⟨rfl, hn⟩
    exact .snapshot hn
  elaborate hn hmono _ := by
    rw [show Expr.shift p.tandem.offset _ = _ from Expr.shift_zero _]
    exact (elaborate hn hmono _).meets fun _ _ => trivial

end Easing

namespace Compile

mutual

/-- Compiling a node, with a probe before every step below it where that is asked for. -/
def nodeWith (probes : Bool) (reg : Directives) : Node → Compile Step
  | .text s => return .text s
  | .expr text span => do return .emit (← expression text span).code
  | .directive tag ss => directive reg tag (sectionsWith probes reg ss)
  | .fault d => throw d

def nodesWith (probes : Bool) (reg : Directives) : List Node → Compile (List Step)
  | [] => return []
  | n :: ns => do
    let d := (← scope).depth
    let s ← nodeWith probes reg n
    let ss ← nodesWith probes reg ns
    return if probes then .probe d :: s :: ss else s :: ss

def sectionsWith (probes : Bool) (reg : Directives) : List DocSection → List Section
  | [] => []
  | .mk control span text ns :: ss =>
    ⟨control, span, text, do return Body.ofSteps (← nodesWith probes reg ns)⟩ :: sectionsWith probes reg ss

end

/-! Without probes nodes are compiled as ever. -/

mutual

theorem nodeWith_false (reg : Directives) : (nd : Node) → nodeWith false reg nd = node reg nd
  | .text s => by rw [nodeWith, node]
  | .expr text span => by rw [nodeWith, node]
  | .directive tag ss => by rw [nodeWith, node, sectionsWith_false reg ss]
  | .fault d => by rw [nodeWith, node]

theorem nodesWith_false (reg : Directives) : (ns : List Node) → nodesWith false reg ns = nodes reg ns
  | [] => by rw [nodesWith, nodes]
  | nd :: ns => by
    rw [nodesWith, nodes, nodeWith_false reg nd, nodesWith_false reg ns]
    rfl

theorem sectionsWith_false (reg : Directives) : (ss : List DocSection) → sectionsWith false reg ss = sections reg ss
  | [] => by rw [sectionsWith, sections]
  | .mk control span text ns :: ss => by
    rw [sectionsWith, sections, nodesWith_false reg ns, sectionsWith_false reg ss]

end

mutual

theorem node_alike : (nd : Node) → ∀ w : Standing, (w.landing = .outermost → ∀ x ∈ nd.writes, x ∈ ws) →
    p.tandem.simulation.rel w p.tandem.step (nodeWith p.probes .standard nd) (nodeWith p.probes' .standard nd)
  | .text s, w, _ => by
    rw [nodeWith, nodeWith]
    exact p.lawful.calculus.pure (.text s)
  | .expr text span, w, _ => by
    rw [nodeWith, nodeWith]
    exact kept_expr p.lawful.kept False.elim
  | .directive tag ss, w, h => by
    rw [nodeWith, nodeWith]
    rw [Node.writes] at h
    refine kept_directive p.lawful.kept False.elim (fun hr x hx => h hr x ?_)
      (.inr (sections_alike ss (w.landing.within tag) fun hin x hx => ?_))
    · exact List.mem_append_left _ (Option.mem_toList.2 hx)
    · unfold Landing.within at hin
      split at hin
      · cases hin
      · next hopen => exact h hin x (List.mem_append_right _ (by rwa [if_neg hopen]))
  | .fault f, w, _ => by
    rw [nodeWith, nodeWith]
    exact p.lawful.calculus.throw trivial

theorem nodes_alike : (ns : List Node) → ∀ w : Standing, (w.landing = .outermost → ∀ x ∈ Node.writesAll ns, x ∈ ws) →
    p.tandem.simulation.rel w p.tandem.steps (nodesWith p.probes .standard ns) (nodesWith p.probes' .standard ns)
  | [], w, _ => by
    rw [nodesWith, nodesWith]
    exact p.lawful.calculus.pure .nil
  | nd :: ns, w, h => by
    rw [nodesWith, nodesWith]
    rw [Node.writesAll] at h
    refine p.lawful.calculus.andThen p.lawful.scope fun s s' hs => ?_
    refine p.lawful.calculus.bind (node_alike nd w fun hr x hx => h hr x (List.mem_append_left _ hx)) ?_
    rintro _ ⟨σ, -, rfl⟩ step step' hstep
    refine p.lawful.calculus.bind (nodes_alike ns _ fun hr x hx => h hr x (List.mem_append_right _ hx)) ?_
    rintro _ ⟨σ', hσ', rfl⟩ ss ss' hss
    have hsteps := Step.AlikeAll.cons (hstep.mono (.refl _) hσ') hss
    refine p.lawful.calculus.pure ?_
    rw [hs.alike.depth, hs.depth]
    cases hprobes : p.probes with
    | true =>
      rw [p.probed hprobes]
      exact .cons .probe hsteps
    | false =>
      cases p.probes' with
      | true => exact .probed hsteps
      | false => exact hsteps

theorem sections_alike : (ss : List DocSection) → ∀ r,
    (r = .outermost → ∀ x ∈ DocSection.writes ss, x ∈ ws) →
    List.Forall₂ (Section.Like p.tandem.simulation r) (sectionsWith p.probes .standard ss)
      (sectionsWith p.probes' .standard ss)
  | [], r, _ => by
    rw [sectionsWith, sectionsWith]
    exact .nil
  | .mk control span text ns :: ss, r, h => by
    rw [sectionsWith, sectionsWith]
    rw [DocSection.writes] at h
    refine .cons ⟨(Tag.map_shift_zero control).symm, fun _ _ => False.elim, rfl, rfl, ?_⟩
      (sections_alike ss r fun hr x hx => h hr x (List.mem_append_right _ hx))
    rintro w rfl
    refine p.lawful.calculus.bind (nodes_alike ns w fun hr x hx => h hr x (List.mem_append_left _ hx)) ?_
    exact fun _ _ _ _ hss => p.lawful.calculus.pure (Body.ofSteps_alike hss)

end

/-- Compiling nodes to a body, with a probe before every step where that is asked for. -/
def bodyWith (probes : Bool) (reg : Directives) (ns : List Node) : Compile Body := do
  return Body.ofSteps (← nodesWith probes reg ns)

theorem bodyWith_false (reg : Directives) (ns : List Node) : bodyWith false reg ns = body reg ns := by
  rw [bodyWith, nodesWith_false]
  rfl

theorem body_alike (ns : List Node) (w : Standing) (h : w.landing = .outermost → ∀ x ∈ Node.writesAll ns, x ∈ ws) :
    p.tandem.simulation.rel w p.tandem.steps (bodyWith p.probes .standard ns) (bodyWith p.probes' .standard ns) :=
  p.lawful.calculus.bind (nodes_alike ns w h) fun _ _ _ _ hss => p.lawful.calculus.pure (Body.ofSteps_alike hss)

end Compile

/-- What a run of a template gives, read off the run of its steps. -/
theorem Template.run_spec (t : Template) (h : Host) (context : Value) (w : World) :
    let r := Step.runAll h t.body (.init context t.slots { w with format := t.format })
    ((∃ p, (t.run h context w).outcome = .ok p) ↔ ∀ f, r.1 ≠ .error (.fail f)) ∧
      (t.run h context w).out = r.2.out ∧ (t.run h context w).world = { r.2.world with format := w.format } := by
  unfold run
  generalize Step.runAll h t.body (.init context t.slots { w with format := t.format }) = r
  obtain ⟨r, e⟩ := r
  match r with
  | .ok () => simp
  | .error .stop => simp
  | .error (.fail f) => simp

namespace Engine

def compiler (e : Engine) (source : String) (w : World) : Compiler :=
  ⟨⟨source⟩, e.host, w, e.types, e.resolvers, e.options⟩

theorem compile_eq (e : Engine) (text : String) (context : Kind) (w : World) :
    e.compile text context w =
      match Compile.body e.directives (Node.read e.directives 0 text.toList) (e.compiler text w)
        ⟨.init e.host w context, e.options.impliedNamespaces⟩ with
      | .ok (b, n) => .ok ⟨b, n.scope.slots, e.options.numberFormat⟩
      | .error d => .error (d.locate ⟨text⟩) := rfl

theorem compile_ok_iff {e : Engine} {text : String} {context : Kind} {w : World} {t : Template} :
    e.compile text context w = .ok t ↔ ∃ b n,
      Compile.body e.directives (Node.read e.directives 0 text.toList) (e.compiler text w)
        ⟨.init e.host w context, e.options.impliedNamespaces⟩ = .ok (b, n) ∧
      t = ⟨b, n.scope.slots, e.options.numberFormat⟩ := by
  rw [compile_eq]
  cases Compile.body e.directives (Node.read e.directives 0 text.toList) (e.compiler text w)
      ⟨.init e.host w context, e.options.impliedNamespaces⟩ with
  | error d => simp
  | ok r => simp [Prod.ext_iff, eq_comm]

def withStrict (e : Engine) (strict : Bool) : Engine := { e with options := { e.options with strict } }

/-- Compiles a template with a probe before every step where that is asked for. -/
def compileWith (e : Engine) (probes : Bool) (source : String) (context : Kind) (w : World) :
    Except Diagnostic Template :=
  match (Compile.bodyWith probes e.directives (Node.read e.directives 0 (Source.chars ⟨source⟩)))
      (e.compiler source w) ⟨.init e.host w context, e.options.impliedNamespaces⟩ with
  | .ok (body, n) => .ok ⟨body, n.scope.slots, e.options.numberFormat⟩
  | .error d => .error (d.locate ⟨source⟩)

theorem compileWith_false (e : Engine) (source : String) (context : Kind) (w : World) :
    e.compileWith false source context w = e.compile source context w := by
  unfold compileWith
  rw [Compile.bodyWith_false]
  rfl

theorem compile_alike {e : Engine} (hdirectives : e.directives = .standard) {source : String} {w : World}
    {p : Easing (Source.writes ⟨source⟩)} (hcompiler : p.compiler = e.compiler source w) {context : Kind} {t : Template}
    (ht : e.compileWith p.probes source context w = .ok t) :
    ∃ σ t', (e.withStrict p.strict).compileWith p.probes' source context w = .ok t' ∧ t.slots = σ.length ∧
      t'.slots = σ.length ∧ t'.format = t.format ∧ Step.AlikeAll p.likeness σ 1 t.body t'.body := by
  have hscopes : Standing.Scopes p.likeness ⟨.outermost, [], _⟩ (.init e.host w context) (.init e.host w context) :=
    ⟨⟨.nil, .open_ _ _, rfl, rfl⟩, rfl, Landing.holds_init e.host w context⟩
  have hbody := (Compile.body_alike (p := p) (Node.read Directives.standard 0 (Source.chars ⟨source⟩)) _
    (fun _ _ hx => hx) ⟨_, e.options.impliedNamespaces⟩ ⟨_, _⟩ ⟨hscopes, rfl⟩).tracks
  have hother : p.other = (e.withStrict p.strict).compiler source w := by
    unfold Easing.other
    rw [hcompiler]
    rfl
  dsimp only [Easing.tandem] at hbody
  rw [hother] at hbody
  unfold compileWith at ht
  rw [hdirectives] at ht
  split at ht
  · next body n hn =>
    cases ht
    obtain ⟨⟨body', n'⟩, hn', _, ⟨σ, -, rfl⟩, hnames', hsteps⟩ := hbody (body, n) (by rw [hcompiler]; exact hn)
    refine ⟨σ, ⟨body', n'.scope.slots, e.options.numberFormat⟩, ?_, hnames'.1.alike.slots, hnames'.1.alike.slots', rfl,
      hsteps⟩
    unfold compileWith
    rw [show (e.withStrict p.strict).directives = .standard from hdirectives]
    split
    · next hn'' => cases hn''.symm.trans hn'; rfl
    · next hn'' => cases hn''.symm.trans hn'
  · cases ht

end Engine

end Stencil
