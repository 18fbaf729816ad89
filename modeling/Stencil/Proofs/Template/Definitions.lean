import Stencil.Proofs.Run.Pieces
import Stencil.Proofs.Template.Lets
set_option autoImplicit false

namespace Stencil

variable {h : Host} {cs : Bool} {s s' : Scope}

/-- Only definitions are in force, in the outermost frame, each with a slot. -/
structure Scope.Plain (k : Kind) (s : Scope) : Prop where
  inner : s.inner = []
  context : s.root.context = k
  binder : s.root.binder = .declarations
  bindings : ∀ b ∈ s.root.bindings.entries, ∃ n kind, b.2 = .slot n kind .definition ∧ n < s.slots

/-- Nothing is a member of a context of a kind, and it has no variables. -/
structure Host.Bare (h : Host) (w : World) (k : Kind) : Prop where
  dynamic : h.isDynamic w k = false
  member : ∀ r : NameRequest, r.receiver.kind = k → memberOf h w r = none

/-- Nothing but the scope tells what names mean, and those that it does not know are let pass. -/
structure Compiler.Bare (c : Compiler) (k : Kind) : Prop where
  resolvers : c.resolvers = []
  strict : c.options.strict = false
  bare : c.host.Bare c.world k

namespace Scope.Plain

variable {k : Kind}

theorem frames (hs : s.Plain k) : s.frames = [s.root] := by
  unfold Scope.frames
  rw [hs.inner]
  rfl

theorem depth (hs : s.Plain k) : s.depth = 1 := by
  unfold Scope.depth
  rw [hs.inner]
  rfl

theorem define (hs : s.Plain k) (name : String) (kind : Kind) : (s.define name kind).Plain k where
  inner := hs.inner
  context := hs.context
  binder := hs.binder
  bindings := by
    intro b hb
    rcases Table.mem_set hb with hb | rfl
    · obtain ⟨n, kind, hb, hn⟩ := hs.bindings b hb
      exact ⟨n, kind, hb, Nat.lt_succ_of_lt hn⟩
    · exact ⟨s.slots, kind, rfl, Nat.lt_succ_self _⟩

theorem declarationFrame (hs : s.Plain k) : s.declarationFrame = 0 := by
  have htakes : s.root.takesDefinitions = true := by
    unfold Frame.takesDefinitions
    rw [hs.binder]
  unfold Scope.declarationFrame
  rw [hs.frames, findFrame?, if_pos htakes]
  rfl

theorem binder? (hs : s.Plain k) : s.binder? 0 = some .declarations := by
  unfold Scope.binder? Scope.frame?
  rw [hs.frames]
  exact congrArg some hs.binder

theorem lookup (hs : s.Plain k) (w : World) (name : String) :
    s.lookup h w cs name = (s.root.bindings.lookup cs name).map fun b => (0, b) := by
  unfold Scope.lookup
  rw [hs.frames, lookupIn, lookupIn]
  unfold meaning? Frame.find?
  rw [hs.binder]
  cases s.root.bindings.lookup cs name <;> rfl

end Scope.Plain

namespace Setting

variable {st : Setting} {k : Kind}

theorem quiet_elaborate (hs : st.scope.Plain k) (hresolvers : st.resolvers = []) (x : Expr) (h : Host) :
    Ensures (fun t => Flow.Quiet (t.code.run h)) (st.elaborate x) := by
  let l : Likeness := { Likeness.same with texts := False }
  let σ := SlotUse.values st.scope.slots
  have hroot : Frame.Alike l σ st.scope.root st.scope.root := by
    refine ⟨rfl, rfl, List.forall₂_same.2 fun b hb => ⟨rfl, ?_⟩⟩
    obtain ⟨n, kind, hslot, hn⟩ := hs.bindings b hb
    rw [hslot]
    exact .slot kind .definition (SlotUse.getElem?_values hn)
  have halike : Setting.Alike l σ st st.scope st.strict := by
    refine ⟨⟨?_, hroot, by simp [σ], by simp [σ]⟩, id, ?_, fun _ _ _ => ⟨fun _ => trivial, fun _ _ => trivial⟩⟩
    · rw [hs.inner]
      exact .nil
    · rw [hresolvers]
      intro f hf
      cases hf
  intro t ht
  obtain ⟨t', -, htt'⟩ := halike.elaborate (fun _ _ => rfl) x (fun _ _ _ => rfl) t ht
  exact Code.quiet_run h (.values id _) htt'.code

theorem elaborate_name (hs : st.scope.Plain k) (hbare : st.host.Bare st.world k) (hresolvers : st.resolvers = [])
    (hstrict : st.strict = false) (name : String) (span : Span) :
    Ensures (fun t => t.code = st.scope.reading st.caseSensitive name) (st.elaborate (.name name span)) := by
  have hlookup : st.lookup name = (st.scope.root.bindings.lookup st.caseSensitive name).map fun b => (0, b) :=
    hs.lookup st.world name
  unfold Scope.reading
  obtain ⟨b, hb, -, hfound⟩ | ⟨-, hfound⟩ := Table.lookup_cases st.scope.root.bindings st.caseSensitive name
  · obtain ⟨n, kind, hslot, -⟩ := hs.bindings b hb
    rw [hfound, hslot] at hlookup
    rw [hfound, hslot, elaborate_of_slot hlookup]
    exact .ok rfl
  · rw [hfound] at hlookup
    have hreceiver : (st.request st.receiver name none span).receiver.kind = k := by
      show st.scope.current.context = k
      unfold Scope.current
      rw [hs.inner]
      exact hs.context
    have htry : st.tryName name span = .ok none := by
      unfold tryName
      rw [hlookup]
      show st.resolve _ = _
      unfold resolve
      rw [hresolvers, resolveWith, hbare.member _ hreceiver]
    rw [elaborate, Setting.name, htry, hfound]
    show Ensures _ (st.unresolved _ _)
    unfold unresolved
    rw [hstrict]
    exact .ok rfl

end Setting

theorem exists_of_pair {α β γ : Type} {x : Option α} {y : Option β} {f : α → β → γ} {z : γ}
    (h : (do return f (← x) (← y)) = some z) : ∃ a b, x = some a ∧ y = some b ∧ f a b = z := by
  obtain ⟨a, ha, h⟩ := Option.bind_eq_some_iff.1 h
  obtain ⟨b, hb, h⟩ := Option.bind_eq_some_iff.1 h
  exact ⟨a, b, ha, hb, Option.some.inj h⟩

/-- A part of a text that holds text, names, definitions and conditions only. -/
inductive Mark where
  | text (s : String)
  | reference (name : String)
  | definition (name : String)
  | conditional (yes no : List Mark)

mutual

def Mark.ofNode? : Node → Option Mark
  | .text s => some (.text s)
  | .expr source span =>
    match Expr.ofText source span.start with
    | .ok (.name name _) => some (.reference name)
    | _ => none
  | .directive tag ss =>
    if tag.name = "define" then
      match Arguments.readDefineHead tag.args tag.argsSpan.start with
      | .ok ⟨name, _, .value _ _⟩ => some (.definition name)
      | _ => none
    else if tag.name = "if" then
      match ss with
      | .mk _ _ _ ns :: more => do return .conditional (← Mark.ofNodes? ns) (← Mark.ofBranches? tag more)
      | [] => none
    else none
  | .fault _ => none

def Mark.ofNodes? : List Node → Option (List Mark)
  | [] => some []
  | nd :: ns => do return (← Mark.ofNode? nd) :: (← Mark.ofNodes? ns)

def Mark.ofBranches? (tag : Tag) : List DocSection → Option (List Mark)
  | [] => some []
  | .mk control _ _ ns :: more =>
    if (control.getD tag).name = "else" then if more.isEmpty then Mark.ofNodes? ns else none
    else do return [.conditional (← Mark.ofNodes? ns) (← Mark.ofBranches? tag more)]

end

mutual

def Piece.mark : Piece → Mark
  | .text s => .text s
  | .reference name _ => .reference name
  | .definition name _ _ => .definition name
  | .conditional _ yes no => .conditional (Piece.marks yes) (Piece.marks no)

def Piece.marks : List Piece → List Mark
  | [] => []
  | p :: ps => p.mark :: Piece.marks ps

end

mutual

def Mark.defined : Mark → List String
  | .text _ | .reference _ => []
  | .definition name => [name]
  | .conditional yes no => Mark.definedAll yes ++ Mark.definedAll no

def Mark.definedAll : List Mark → List String
  | [] => []
  | m :: ms => m.defined ++ Mark.definedAll ms

end

mutual

theorem Piece.defined_eq : (p : Piece) → p.defined = p.mark.defined
  | .text _ | .reference _ _ | .definition _ _ _ => by rw [Piece.defined, Piece.mark, Mark.defined]
  | .conditional _ yes no => by
    rw [Piece.defined, Piece.mark, Mark.defined, Piece.definedAll_eq yes, Piece.definedAll_eq no]

theorem Piece.definedAll_eq : (ps : List Piece) → Piece.definedAll ps = Mark.definedAll (Piece.marks ps)
  | [] => by rw [Piece.definedAll, Piece.marks, Mark.definedAll]
  | p :: ps => by rw [Piece.definedAll, Piece.marks, Mark.definedAll, Piece.defined_eq p, Piece.definedAll_eq ps]

end

namespace Compile

variable {c : Compiler} {k : Kind} {α : Type}

theorem leaves_setting (strict : Bool) :
    Leaves (.any c) s (fun st s' => (∃ namespaces, st = ⟨c.host, c.world, s, c.types, namespaces, c.resolvers,
      c.options.caseSensitive, strict⟩) ∧ s' = s) (setting strict) := by
  rintro n rfl
  exact ⟨.ok ⟨⟨n.namespaces, rfl⟩, rfl⟩, .ok⟩

theorem leaves_ofExcept {P : α → Prop} {x : Except Diagnostic α} (hx : Ensures P x) :
    Leaves (.any c) s (fun a s' => P a ∧ s' = s) (ofExcept x) := by
  cases x with
  | ok a => exact .pure ⟨hx a rfl, rfl⟩
  | error d => exact .throw trivial

def Draft (c : Compiler) (k : Kind) (m : Mark) (s : Scope) (step : Step) (s' : Scope) : Prop :=
  s'.Plain k ∧ ∃ p : Piece, p.mark = m ∧ p.step = step ∧ Compiled c.host c.options.caseSensitive s [p] s'

/-- What nodes compile to are the steps of pieces, up to steps that are left out. -/
def Drafts (c : Compiler) (k : Kind) (tidy : List Step → List Step) (ms : List Mark) (s : Scope) (ss : List Step)
    (s' : Scope) : Prop :=
  s'.Plain k ∧ ∃ ps, Piece.marks ps = ms ∧ tidy (Piece.steps ps) = ss ∧
    Compiled c.host c.options.caseSensitive s ps s'

theorem leaves_body {ns : List Node} {ms : List Mark}
    (h : Leaves (.any c) s (Drafts c k id ms s) (nodes .standard ns)) :
    Leaves (.any c) s (Drafts c k Body.ofSteps ms s) (body .standard ns) := by
  refine h.bind ?_
  rintro steps s' ⟨hs', ps, hms, rfl, hps⟩
  exact .pure ⟨hs', ps, hms, rfl, hps⟩

theorem Drafts.choose {yes no : List Mark} {test : Code} {b b' : Body} {s₁ s₂ : Scope}
    (htest : Flow.Quiet (test.run c.host)) (hyes : Drafts c k Body.ofSteps yes s b s₁)
    (hno : Drafts c k Body.ofSteps no s₁ b' s₂) : Draft c k (.conditional yes no) s (.choose test b b') s₂ := by
  obtain ⟨-, ps, rfl, rfl, hps⟩ := hyes
  obtain ⟨hs₂, qs, rfl, rfl, hqs⟩ := hno
  exact ⟨hs₂, .conditional test ps qs, by rw [Piece.mark], by rw [Piece.step], .conditional htest hps hqs (.nil s₂)⟩

theorem leaves_elaborateWith (hc : c.Bare k) (hs : s.Plain k) (strict : Bool) (x : Expr) :
    Leaves (.any c) s (fun t s' => Flow.Quiet (t.code.run c.host) ∧ s' = s) (elaborateWith strict x) := by
  refine (leaves_setting strict).bind ?_
  rintro _ _ ⟨⟨namespaces, rfl⟩, rfl⟩
  exact leaves_ofExcept (Setting.quiet_elaborate hs hc.resolvers x c.host)

theorem leaves_predicate (hc : c.Bare k) (hs : s.Plain k) (text : String) (span : Span) :
    Leaves (.any c) s (fun t s' => Flow.Quiet (t.code.run c.host) ∧ s' = s) (predicate text span) := by
  have hexpression (strict : Bool) :
      Leaves (.any c) s (fun t s' => Flow.Quiet (t.code.run c.host) ∧ s' = s) (expressionWith strict text span) := by
    unfold expressionWith Setting.elaborateText
    cases Expr.ofText text span.start with
    | ok x => exact leaves_elaborateWith hc hs strict x
    | error f => exact (leaves_setting strict).bind fun _ _ _ => .throw trivial
  refine Leaves.read.bind ?_
  rintro _ _ ⟨rfl, rfl⟩
  refine (hexpression _).bind ?_
  rintro t _ ⟨hquiet, rfl⟩
  refine leaves_ofExcept ?_
  unfold Typed.coerceTo
  split
  · exact .ok hquiet
  · exact .ok (.bind hquiet fun _ => .value _)

theorem leaves_branch (hc : c.Bare k) (hs : s.Plain k) {x : Section} {Q : Body → Scope → Prop}
    (hx : Leaves (.any c) s Q x.compile) (word args : String) (argsSpan span : Span) :
    Leaves (.any c) s (fun r s' => Flow.Quiet (r.1.run c.host) ∧ Q r.2 s')
      (Directive.branch word args argsSpan span x) := by
  unfold Directive.branch
  split
  · exact .throw trivial
  · refine (leaves_predicate hc hs args argsSpan).bind ?_
    rintro test _ ⟨hquiet, rfl⟩
    exact hx.bind fun b _ hb => .pure ⟨hquiet, hb⟩

theorem leaves_bindValue (hs : s.Plain k) (name : String) {t : Typed} (ht : Flow.Quiet (t.code.run c.host)) :
    Leaves (.any c) s (Draft c k (.definition name) s) (Directive.bindValue name t) := by
  unfold Directive.bindValue
  refine Leaves.scope.bind ?_
  rintro _ _ ⟨rfl, rfl⟩
  dsimp only
  rw [hs.declarationFrame, hs.binder?, if_neg (by decide)]
  refine Leaves.allocate.bind ?_
  rintro _ _ ⟨rfl, rfl⟩
  refine (Leaves.declare 0 name _).bind ?_
  rintro - _ rfl
  exact .pure ⟨hs.define name t.kind, _, rfl, rfl, .definition name t.kind ht (.nil _)⟩

theorem leaves_expression (hc : c.Bare k) (hs : s.Plain k) {text name : String} {span nameSpan : Span}
    (hread : Expr.ofText text span.start = .ok (.name name nameSpan)) :
    Leaves (.any c) s (fun t s' => t.code = s.reading c.options.caseSensitive name ∧ s' = s)
      (expression text span) := by
  have hexpression : Leaves (.any c) s (fun t s' => t.code = s.reading c.options.caseSensitive name ∧ s' = s)
      (expressionWith false text span) := by
    unfold expressionWith Setting.elaborateText
    rw [hread]
    refine (leaves_setting false).bind ?_
    rintro _ _ ⟨⟨namespaces, rfl⟩, rfl⟩
    exact leaves_ofExcept (Setting.elaborate_name hs hc.bare hc.resolvers rfl name nameSpan)
  refine Leaves.read.bind ?_
  rintro _ _ ⟨rfl, rfl⟩
  rw [hc.strict]
  exact hexpression

theorem leaves_define (hc : c.Bare k) (hs : s.Plain k) {i : Invocation} {name : String} {nameSpan : Span}
    {lenient : Bool} {x : Expr}
    (hread : Arguments.readDefineHead i.tag.args i.tag.argsSpan.start = .ok ⟨name, nameSpan, .value lenient x⟩) :
    Leaves (.any c) s (Draft c k (.definition name) s) (Directive.define.action i) := by
  have harguments : arguments Arguments.readDefineHead i.tag.args i.tag.argsSpan =
      pure ⟨name, nameSpan, .value lenient x⟩ := by
    unfold arguments
    rw [hread]
  have helaborate (strict : Bool) := leaves_elaborateWith hc hs strict x
  dsimp only [Directive.define]
  split
  · exact .throw trivial
  · rw [harguments, pure_bind]
    refine (Directive.leaves_expectNotLet (k := .any c) name False.elim).bind ?_
    rintro - _ ⟨-, rfl⟩
    dsimp only
    split
    · refine (helaborate false).bind ?_
      rintro t _ ⟨hquiet, rfl⟩
      exact leaves_bindValue hs name hquiet
    · unfold elaborate
      rw [bind_assoc]
      refine Leaves.read.bind ?_
      rintro _ _ ⟨rfl, rfl⟩
      refine (helaborate _).bind ?_
      rintro t _ ⟨hquiet, rfl⟩
      exact leaves_bindValue hs name hquiet

mutual

theorem leaves_node (hc : c.Bare k) : (nd : Node) → {m : Mark} → Mark.ofNode? nd = some m → {s : Scope} →
    s.Plain k → Leaves (.any c) s (Draft c k m s) (node .standard nd)
  | .text t, m, hm, s, hs => by
    rw [Mark.ofNode?] at hm
    cases hm
    rw [node]
    exact .pure ⟨hs, .text t, rfl, rfl, .text t (.nil s)⟩
  | .expr text span, m, hm, s, hs => by
    rw [Mark.ofNode?] at hm
    split at hm
    · next name nameSpan hread =>
      cases hm
      rw [node]
      refine (leaves_expression hc hs hread).bind ?_
      rintro t _ ⟨hcode, rfl⟩
      rw [hcode]
      exact .pure ⟨hs, _, rfl, rfl, .reference name (.nil _)⟩
    · cases hm
  | .directive tag ss, m, hm, s, hs => by
    rw [Mark.ofNode?.eq_def] at hm
    dsimp only at hm
    rw [node]
    have hdepth (step : Step) (s' : Scope) (h : Draft c k m s step s') : s'.depth = s.depth :=
      h.1.depth.trans hs.depth.symm
    split at hm
    · next htag =>
      split at hm
      · next hread =>
        cases hm
        exact leaves_directive (by rw [htag]; rfl) hdepth (leaves_define hc hs hread)
      · cases hm
    · split at hm
      · next htag =>
        refine leaves_directive (D := Directive.conditional) (by rw [htag]; rfl) hdepth ?_
        cases ss with
        | nil => cases hm
        | cons first more =>
          obtain ⟨control, span, text, ns⟩ := first
          obtain ⟨yes, no, hyes, hno, rfl⟩ := exists_of_pair hm
          rw [sections]
          dsimp only [Directive.conditional]
          split
          · exact .throw trivial
          · refine (leaves_branch hc hs (leaves_body (leaves_nodes hc ns hyes hs)) _ _ _ _).bind ?_
            rintro ⟨test, b⟩ s₁ ⟨hquiet, hb⟩
            refine (leaves_branches hc tag _ more hno hb.1).bind ?_
            rintro b' s₂ hb'
            exact .pure (Drafts.choose hquiet hb hb')
      · cases hm
  | .fault _, m, hm, _, _ => by
    rw [Mark.ofNode?] at hm
    cases hm

theorem leaves_nodes (hc : c.Bare k) : (ns : List Node) → {ms : List Mark} → Mark.ofNodes? ns = some ms →
    {s : Scope} → s.Plain k → Leaves (.any c) s (Drafts c k id ms s) (nodes .standard ns)
  | [], ms, hms, s, hs => by
    rw [Mark.ofNodes?] at hms
    cases hms
    rw [nodes]
    exact .pure ⟨hs, [], rfl, rfl, .nil s⟩
  | nd :: ns, ms, hms, s, hs => by
    rw [Mark.ofNodes?] at hms
    obtain ⟨m, rest, hm, hrest, rfl⟩ := exists_of_pair hms
    rw [nodes]
    refine (leaves_node hc nd hm hs).bind ?_
    rintro step s' ⟨hs', p, rfl, rfl, hp⟩
    refine (leaves_nodes hc ns hrest hs').bind ?_
    rintro steps s'' ⟨hs'', ps, rfl, rfl, hps⟩
    exact .pure ⟨hs'', p :: ps, by rw [Piece.marks], by rw [Piece.steps]; rfl, hp.append hps⟩

theorem leaves_branches (hc : c.Bare k) (tag : Tag) (xs : List Section) : (ss : List DocSection) → {ms : List Mark} →
    Mark.ofBranches? tag ss = some ms → {s : Scope} → s.Plain k →
    Leaves (.any c) s (Drafts c k Body.ofSteps ms s) (Directive.branches ⟨tag, xs⟩ none (sections .standard ss))
  | [], ms, hms, s, hs => by
    rw [Mark.ofBranches?] at hms
    cases hms
    rw [sections]
    exact .pure ⟨hs, [], rfl, rfl, .nil s⟩
  | .mk control span text ns :: more, ms, hms, s, hs => by
    rw [Mark.ofBranches?] at hms
    rw [sections]
    unfold Directive.branches
    dsimp only
    split at hms
    · next htag =>
      -- Nothing may follow the branch without a condition.
      split at hms
      · next hmore =>
        obtain rfl : more = [] := List.isEmpty_iff.1 hmore
        rw [if_neg (by simp), if_pos htag]
        split
        · exact .throw trivial
        · refine (leaves_body (leaves_nodes hc ns hms hs)).bind ?_
          rintro b s' hb
          rw [sections]
          exact .pure hb
      · cases hms
    · next htag =>
      obtain ⟨yes, no, hyes, hno, rfl⟩ := exists_of_pair hms
      rw [if_neg (by simp), if_neg htag]
      refine (leaves_branch hc hs (leaves_body (leaves_nodes hc ns hyes hs)) _ _ _ _).bind ?_
      rintro ⟨test, b⟩ s₁ ⟨hquiet, hb⟩
      refine (leaves_branches hc tag xs more hno hb.1).bind ?_
      rintro b' s₂ hb'
      obtain ⟨hs₂, p, hmark, hstep, hp⟩ := Drafts.choose hquiet hb hb'
      refine .pure ⟨hs₂, [p], ?_, ?_, hp⟩
      · rw [Piece.marks, hmark, Piece.marks]
      · rw [Piece.steps, hstep, Piece.steps]
        rfl

end

end Compile

theorem History.holds_init (s : Scope) (hs : s.root.bindings = .empty) (v : Value) (slots : Nat) (w : World) :
    History.Holds s (Env.init v slots w) [] := by
  constructor
  · rw [hs]
    exact .nil
  · exact fun n _ => Env.slot_init v slots n w

namespace Engine

/-- What the names in a template of text, names, definitions and conditions read: the last definition before them
in the text, if that was executed. -/
theorem names_read_last_definition (e : Engine) {source : String} {context : Kind} {w : World} {ms : List Mark}
    {t : Template} (hdirectives : e.directives = .standard) (hbare : (e.compiler source w).Bare context)
    (hms : Mark.ofNodes? (Node.read e.directives 0 source.toList) = some ms)
    (ht : e.compile source context w = .ok t) :
    ∃ ps, Piece.marks ps = ms ∧ Body.ofSteps (Piece.steps ps) = t.body ∧ ∀ v w',
      let start := Env.init v t.slots { w' with format := t.format }
      let lexical := Piece.replayAll (History.lexical? e.options.caseSensitive) e.host ps start []
      let executed := Piece.replayAll (History.executed? e.options.caseSensitive) e.host ps start []
      Step.runAll e.host t.body start = (lexical.outcome, lexical.env) ∧
        (t.run e.host v w').out = lexical.env.out ∧
        (lexical.history.Settled e.options.caseSensitive → executed = lexical) := by
  obtain ⟨b, n, hn, rfl⟩ := compile_ok_iff.1 ht
  have hplain : (Scope.init e.host w context).Plain context := by
    refine ⟨rfl, rfl, ?_, nofun⟩
    exact if_neg (Bool.eq_false_iff.1 hbare.bare.dynamic)
  have hbody := Compile.leaves_body (Compile.leaves_nodes hbare _ hms hplain)
  rw [hdirectives] at hn hbody
  obtain ⟨-, ps, hmarks, hsteps, hps⟩ := (hbody _ rfl).1 _ hn
  obtain rfl : Body.ofSteps (Piece.steps ps) = b := hsteps
  refine ⟨ps, hmarks, rfl, fun v w' => ?_⟩
  intro start lexical executed
  have hrun : Step.runAll e.host (Body.ofSteps (Piece.steps ps)) start = (lexical.outcome, lexical.env) := by
    rw [Step.runAll_ofSteps]
    exact (hps.plays (History.holds_init _ rfl v n.scope.slots { w' with format := e.options.numberFormat })).run
  refine ⟨hrun, ?_, Piece.replayAll_of_settled⟩
  rw [(Template.run_spec _ _ _ _).2.1]
  exact congrArg (fun r => r.2.out) hrun

/-- Every name has one definition, so what names read is what was executed. The branch that is not taken leaves its
name without a text. -/
theorem names_read_last_definition_branch :
    let source := "$$#define n = \"a\"$$$$#if false$$$$#define m = n$$$$#else$$$$#define k = \"b\"$$$$/if$$$$n$$$$m$$$$k$$"
    (Engine.default.compiler source .empty).Bare (.int .i32) ∧
      ∃ t ps, Engine.default.compile source (.int .i32) .empty = .ok t ∧
        Piece.marks ps = [.definition "n", .conditional [.definition "m"] [.definition "k"], .reference "n",
          .reference "m", .reference "k"] ∧
        let start := Env.init (.int 5 .i32) t.slots { World.empty with format := t.format }
        (t.run .empty (.int 5 .i32) .empty).out = "ab" ∧
        (Piece.replayAll (History.lexical? true) .empty ps start []).history.Settled true ∧
        (Piece.replayAll (History.executed? true) .empty ps start []).env.out = "ab" := by
  intro source
  have hbare : (Engine.default.compiler source .empty).Bare (.int .i32) := by
    refine ⟨rfl, rfl, rfl, fun r hr => ?_⟩
    unfold memberOf
    rw [hr]
    rfl
  have hnodes : Node.read Directives.standard 0
      "$$#define n = \"a\"$$$$#if false$$$$#define m = n$$$$#else$$$$#define k = \"b\"$$$$/if$$$$n$$$$m$$$$k$$".toList =
      [.directive ⟨"define", ⟨3, 9⟩, "n = \"a\"", ⟨10, 17⟩, ⟨0, 19⟩⟩ [],
        .directive ⟨"if", ⟨22, 24⟩, "false", ⟨25, 30⟩, ⟨19, 32⟩⟩ [
          .mk none ⟨32, 49⟩ "$$#define m = n$$" [.directive ⟨"define", ⟨35, 41⟩, "m = n", ⟨42, 47⟩, ⟨32, 49⟩⟩ []],
          .mk (some ⟨"else", ⟨52, 56⟩, "", ⟨56, 56⟩, ⟨49, 58⟩⟩) ⟨58, 77⟩ "$$#define k = \"b\"$$"
            [.directive ⟨"define", ⟨61, 67⟩, "k = \"b\"", ⟨68, 75⟩, ⟨58, 77⟩⟩ []]],
        .expr "n" ⟨86, 87⟩, .expr "m" ⟨91, 92⟩, .expr "k" ⟨96, 97⟩] := by
    with_unfolding_all rfl
  have hmarks : Mark.ofNodes? (Node.read Directives.standard 0 source.toList) = some [.definition "n",
      .conditional [.definition "m"] [.definition "k"], .reference "n", .reference "m", .reference "k"] := by
    rw [hnodes]
    with_unfolding_all rfl
  have hrun : ((Engine.default.compile source (.int .i32) .empty).toOption.map fun t =>
      (t.run .empty (.int 5 .i32) .empty).out) = some "ab" := by decide +kernel
  obtain ⟨t, ht, hout⟩ := Option.map_eq_some_iff.1 hrun
  have ht := ok_of_toOption ht
  obtain ⟨ps, hps, -, hruns⟩ := names_read_last_definition Engine.default rfl hbare hmarks ht
  obtain ⟨-, hsame, hexecuted⟩ := hruns (.int 5 .i32) .empty
  have hapart : (Piece.definedAll ps).Pairwise fun a b => sameName true b a = false := by
    rw [Piece.definedAll_eq, hps]
    decide
  have hsettled := Piece.settled_of_apart (History.lexical? true) .empty
    (Env.init (.int 5 .i32) t.slots { World.empty with format := t.format }) hapart
  refine ⟨hbare, t, ps, ht, hps, hout, hsettled, ?_⟩
  exact (congrArg (fun r : Replay => r.env.out) (hexecuted hsettled)).trans (hsame.symm.trans hout)

/-- A definition in a branch that is not taken leaves its name with nothing to read, where the last executed one
would give it a text. -/
theorem passed_definition_empties_name :
    let source := "$$#define n = 1$$$$#if false$$$$#define n = 2$$$$/if$$$$n$$"
    let hist : History := [⟨"n", none⟩, ⟨"n", some (.int 1 .i32)⟩]
    (Engine.default.render source (.int 5 .i32) .empty).1.toOption = some "" ∧
      History.text .empty (hist.lexical? true "n") = "" ∧ History.text .empty (hist.executed? true "n") = "1" := by
  decide +kernel

end Engine

end Stencil
