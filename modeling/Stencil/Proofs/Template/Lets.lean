import Stencil.Proofs.Scope.Lets
import Stencil.Proofs.Template.Effects
set_option autoImplicit false

namespace Stencil

variable {c : Compiler} {n m : Names} {α β : Type}

namespace Compile

/-- The names in force that compiling nodes comes to: between nodes, and where a directive starts to compile one
of its sections, whatever that section may be. -/
inductive Reaches (reg : Directives) (c : Compiler) : List Node → Names → Names → Prop where
  | here (ns : List Node) (n : Names) : Reaches reg c ns n n
  | next {nd : Node} {ns : List Node} {n n' m : Names} {step : Step} :
    node reg nd c n = .ok (step, n') → Reaches reg c ns n' m → Reaches reg c (nd :: ns) n m
  | inside {tag : Tag} {before after : List DocSection} {control : Option Tag} {span : Span} {text : String}
    {inner ns : List Node} {n n' m : Names} :
    (∀ (x : Compile Body) (mark : Diagnostic), x c n' = .error mark →
      directive reg tag (sections reg before ++ ⟨control, span, text, x⟩ :: sections reg after) c n = .error mark) →
    Reaches reg c inner n' m →
    Reaches reg c (.directive tag (before ++ .mk control span text inner :: after) :: ns) n m

theorem Reaches.of_nodes {reg : Directives} {ns : List Node} {ss : List Step}
    (h : nodes reg ns c n = .ok (ss, m)) : Reaches reg c ns n m := by
  induction ns generalizing n ss with
  | nil =>
    cases h
    exact .here [] _
  | cons nd ns ih =>
    obtain ⟨⟨s, n'⟩, hnd, h⟩ := exists_of_bind_ok h
    obtain ⟨⟨ss, m'⟩, hns, h⟩ := exists_of_bind_ok h
    cases h
    exact .next hnd (ih hns)

theorem faults_append (before after : List DocSection) :
    DocSection.faults (before ++ after) = DocSection.faults before ++ DocSection.faults after := by
  induction before with
  | nil => rw [DocSection.faults]; rfl
  | cons x before ih =>
    obtain ⟨control, span, text, ns⟩ := x
    rw [List.cons_append, DocSection.faults, DocSection.faults, ih, List.append_assoc]

/-- What nodes keep of a scope holds of all the scopes that are come to: with a spy in the place of a section, which
fails just where it does not hold, a directive would fail as none does. -/
theorem Reaches.keeps (holds : Scope → Prop) {admits : Diagnostic → Prop} {mark : Diagnostic} (hmark : ¬ admits mark)
    (hnode : ∀ nd n step n', (∀ d ∈ nd.faults, admits d) → holds n.scope → node .standard nd c n = .ok (step, n') →
      holds n'.scope)
    (hspied : ∀ tag before after control span text n (spy : Compile Body),
      (∀ d ∈ DocSection.faults before ++ DocSection.faults after, admits d) →
      (∀ n, holds n.scope → spy c n = .ok ([], n)) → holds n.scope → FailsOnly admits (directive .standard tag
        (sections .standard before ++ ⟨control, span, text, spy⟩ :: sections .standard after) c n))
    {ns : List Node} (h : Reaches .standard c ns n m) (hns : ∀ d ∈ Node.faultsAll ns, admits d) (hn : holds n.scope) :
    holds m.scope := by
  induction h with
  | here => exact hn
  | @next nd ns n n' m step hnd _ ih =>
    rw [Node.faultsAll] at hns
    obtain ⟨hfaults, hns⟩ := List.forall_mem_append.1 hns
    exact ih hns (hnode nd n step n' hfaults hn hnd)
  | @inside tag before after control span text inner ns n n' m hinside _ ih =>
    rw [Node.faultsAll, Node.faults, faults_append, DocSection.faults] at hns
    obtain ⟨hdirective, -⟩ := List.forall_mem_append.1 hns
    obtain ⟨hbefore, hrest⟩ := List.forall_mem_append.1 hdirective
    obtain ⟨hinner, hafter⟩ := List.forall_mem_append.1 hrest
    refine ih hinner ?_
    by_contra hn'
    classical
    let spy : Compile Body := fun _ names => if holds names.scope then .ok ([], names) else .error mark
    have hfails := hspied tag before after control span text n spy (List.forall_mem_append.2 ⟨hbefore, hafter⟩)
      (fun _ h => if_pos h) hn
    exact hmark (hfails mark (hinside spy mark (if_neg hn')))

theorem Reaches.holds {ns : List Node} (h : Reaches .standard c ns n m) (k : Contract c) (hk : ¬ k.sited)
    {mark : Diagnostic} (hmark : ¬ k.admits mark) (hns : ∀ d ∈ Node.faultsAll ns, k.admits d)
    (hn : k.holds n.scope) : k.holds m.scope := by
  refine h.keeps k.holds hmark ?_ ?_ hns hn
  · intro nd n step n' hfaults hn hnd
    exact (((tidy_node (absurd · hk) fun d hd _ => hfaults d hd) n.scope hn n rfl).1 _ hnd).2
  · intro tag before after control span text n spy hfaults hspy hn
    obtain ⟨hbefore, hafter⟩ := List.forall_mem_append.1 hfaults
    have htidy : Tidy k spy := by
      rintro s hs names rfl
      rw [hspy names hs]
      exact ⟨.ok ⟨.refl _, hs⟩, .ok⟩
    have hsections : ∀ x ∈ sections .standard before ++ ⟨control, span, text, spy⟩ :: sections .standard after,
        x.Tidy k :=
      List.forall_mem_append.2 ⟨tidy_sections (absurd · hk) fun d hd _ => hbefore d hd,
        List.forall_mem_cons.2 ⟨⟨fun _ _ => (absurd · hk), htidy⟩,
          tidy_sections (absurd · hk) fun d hd _ => hafter d hd⟩⟩
    exact (tidy_directive (absurd · hk) hsections n.scope hn n rfl).2

theorem bind_of_ok {x : Compile α} {a : α} (hx : x c n = .ok (a, m)) (f : α → Compile β) :
    (x >>= f) c n = f a c m := by
  rw [bind_apply, hx]
  rfl

def Fails (c : Compiler) (n : Names) (P : Diagnostic → Prop) (x : Compile α) : Prop :=
  ∃ d, x c n = .error d ∧ P d

namespace Fails

variable {P : Diagnostic → Prop}

theorem throw {d : Diagnostic} (h : P d) : Fails c n P (throw d : Compile α) := ⟨d, rfl, h⟩

theorem eq_error {x : Compile α} {d : Diagnostic} (h : Fails c n (· = d) x) : x c n = .error d := by
  obtain ⟨_, hd, rfl⟩ := h
  exact hd

theorem imp {Q : Diagnostic → Prop} {x : Compile α} (h : Fails c n P x) (hPQ : ∀ d, P d → Q d) : Fails c n Q x := by
  obtain ⟨d, hd, hP⟩ := h
  exact ⟨d, hd, hPQ d hP⟩

theorem bind {x : Compile α} {f : α → Compile β} (h : Fails c n P x) : Fails c n P (x >>= f) := by
  obtain ⟨d, hd, hP⟩ := h
  refine ⟨d, ?_, hP⟩
  rw [bind_apply, hd]
  rfl

theorem after {x : Compile α} {f : α → Compile β} {a : α} (hx : x c n = .ok (a, m)) (h : Fails c m P (f a)) :
    Fails c n P (x >>= f) := by
  obtain ⟨d, hd, hP⟩ := h
  exact ⟨d, (bind_of_ok hx f).trans hd, hP⟩

theorem withFrame {context : Kind} {binder : BinderKind} {f : Nat → Compile α}
    (h : Fails c { n with scope := n.scope.push context binder } P (f n.scope.depth)) :
    Fails c n P (withFrame context binder f) :=
  .after rfl (.after rfl h.bind)

theorem directive {tag : Tag} {xs : List Section} {D : Directive (Invocation → Compile Step)}
    (hD : Directives.standard.get? tag.name = some D) (h : Fails c n P (D.action ⟨tag, xs⟩)) :
    Fails c n P (directive .standard tag xs) := by
  unfold Compile.directive
  rw [hD]
  exact .after (a := n.scope) (m := n) rfl h.bind

end Fails

def Violates (c : Compiler) (n : Names) (x : Compile α) : Prop :=
  Fails c n (fun d => d.fault.classify = .scopeViolation) x

theorem arguments_eq_ok {reader : String → Nat → Except SyntaxError α} {text : String} {span : Span} {a : α}
    (h : reader text span.start = .ok a) : arguments reader text span c n = .ok (a, n) := by
  unfold arguments
  rw [h]
  rfl

end Compile

open Compile (Violates)

namespace Directive

theorem expectNotLet_violates {name : String} (h : n.scope.letOwner? c.options.caseSensitive name ≠ none)
    (span : Span) : Violates c n (expectNotLet name span) := by
  refine .after (m := n) rfl (.after (m := n) rfl ?_)
  rw [if_pos (Option.isSome_iff_ne_none.2 h)]
  exact .throw rfl

theorem expectNotLet_eq_ok {name : String} (h : n.scope.letOwner? c.options.caseSensitive name = none)
    (span : Span) : expectNotLet name span c n = .ok ((), n) := by
  unfold expectNotLet
  rw [Compile.bind_of_ok (a := n.scope) (m := n) rfl, Compile.bind_of_ok (a := c.options.caseSensitive) (m := n) rfl, h]
  rfl

theorem checkBindings_violates {bs : List LetBinding} {b : LetBinding} (hb : b ∈ bs)
    (h : n.scope.letOwner? c.options.caseSensitive b.name ≠ none) (before : List String) :
    Violates c n (checkBindings before bs) := by
  induction bs generalizing before with
  | nil => cases hb
  | cons x bs ih =>
    unfold checkBindings
    by_cases hx : n.scope.letOwner? c.options.caseSensitive x.name = none
    · refine .after (expectNotLet_eq_ok hx _) (.after (m := n) rfl ?_)
      split
      · exact .throw rfl
      · rcases List.mem_cons.1 hb with rfl | hb
        · exact absurd hx h
        · exact ih hb _
    · exact (expectNotLet_violates hx _).bind

theorem checkParameters_violates {first rest : List Expr.Segment} {p : Expr.Segment}
    (h : n.scope.letOwner? c.options.caseSensitive p.name ≠ none)
    (hdistinct : (first ++ [p]).Pairwise fun a b => sameName c.options.caseSensitive a.name b.name = false)
    {before : List String}
    (hbefore : ∀ q ∈ first ++ [p], ∀ a ∈ before, sameName c.options.caseSensitive a q.name = false) :
    Violates c n (checkParameters before (first ++ p :: rest)) := by
  induction first generalizing before with
  | nil =>
    have hnew := hbefore p List.mem_cons_self
    rw [List.nil_append, checkParameters]
    refine .after (a := c.options.caseSensitive) (m := n) rfl ?_
    rw [if_neg (by simpa using hnew)]
    exact (expectNotLet_violates h _).bind
  | cons x first ih =>
    obtain ⟨hx, hrest⟩ := List.forall_mem_cons.1 hbefore
    obtain ⟨hxs, hdistinct⟩ := List.pairwise_cons.1 hdistinct
    rw [List.cons_append, checkParameters]
    refine .after (a := c.options.caseSensitive) (m := n) rfl ?_
    rw [if_neg (by simpa using hx)]
    by_cases hfree : n.scope.letOwner? c.options.caseSensitive x.name = none
    · refine .after (expectNotLet_eq_ok hfree _) ?_
      exact ih hdistinct fun q hq => List.forall_mem_cons.2 ⟨hxs q hq, hrest q hq⟩
    · exact (expectNotLet_violates hfree _).bind

def Refused (d : Diagnostic) : Prop := d.fault.classify = .scopeViolation ∨ d.fault.classify = .grammar

theorem checkParameters_refuses {ps : List Expr.Segment} {p : Expr.Segment} (hp : p ∈ ps)
    (h : n.scope.letOwner? c.options.caseSensitive p.name ≠ none) (before : List String) :
    Compile.Fails c n Refused (checkParameters before ps) := by
  induction ps generalizing before with
  | nil => cases hp
  | cons x ps ih =>
    rw [checkParameters]
    refine .after (a := c.options.caseSensitive) (m := n) rfl ?_
    by_cases htwice : (before.any fun a => sameName c.options.caseSensitive a x.name) = true
    · rw [if_pos htwice]
      exact .throw (.inr rfl)
    · rw [if_neg htwice]
      by_cases hfree : n.scope.letOwner? c.options.caseSensitive x.name = none
      · refine .after (expectNotLet_eq_ok hfree _) ?_
        rcases List.mem_cons.1 hp with rfl | hp
        · exact absurd hfree h
        · exact ih hp _
      · exact ((expectNotLet_violates hfree _).imp fun _ => .inl).bind

end Directive

theorem Expr.readWhole_ne_ok {wanted : Wanted} {place : Place} {reader : Nat → (ts : List Placed) → Reading α ts}
    {text : String} (h : text.isEmpty = true) (base : Nat) (a : α) :
    readWhole wanted place reader text base ≠ .ok a := by
  obtain rfl : text = "" := by simpa using h
  have htokens : Placed.ofText "" base = .ok [] := by
    simp [Placed.ofText, Token.scan, Token.scanFrom, Placed.ofLexemes]
  unfold readWhole
  rw [htokens]
  rintro ⟨⟩

/-- A tag that binds a name which counts as this one, or takes it away. The parameters of a fragment are looked at in
their order, unless there are too many, up to one that counts as an earlier one. -/
inductive Tag.Rebinds (cs : Bool) (name : String) (tag : Tag) : Prop where
  | define {head : DefineHead} : tag.name = "define" →
    Arguments.readDefineHead tag.args tag.argsSpan.start = .ok head → sameName cs name head.name = true →
    Tag.Rebinds cs name tag
  | parameter {head : DefineHead} {first rest : List Expr.Segment} {p : Expr.Segment} : tag.name = "define" →
    Arguments.readDefineHead tag.args tag.argsSpan.start = .ok head → head.form = .body (some (first ++ p :: rest)) →
    (first ++ p :: rest).length ≤ Directive.parameterLimit →
    ((first ++ [p]).Pairwise fun a b => sameName cs a.name b.name = false) → sameName cs name p.name = true →
    Tag.Rebinds cs name tag
  | binding {bs : List LetBinding} {b : LetBinding} : tag.name = "let" →
    Arguments.readLetBindings tag.args tag.argsSpan.start = .ok bs → b ∈ bs → sameName cs name b.name = true →
    Tag.Rebinds cs name tag
  | undef {x : Expr.Segment} : tag.name = "undef" →
    Arguments.readVariableName tag.args tag.argsSpan.start = .ok x → sameName cs name x.name = true →
    Tag.Rebinds cs name tag

namespace Setting

variable {s : Setting} {name : String} {i slot : Nat} {kind : Kind} {origin : Origin}

theorem tryName_of_slot (h : s.lookup name = some (i, .slot slot kind origin)) (span : Span) :
    s.tryName name span = .ok (some ⟨.slot slot, kind⟩) := by
  unfold tryName
  rw [h]

theorem elaborate_of_slot (h : s.lookup name = some (i, .slot slot kind origin)) (span : Span) :
    s.elaborate (.name name span) = .ok ⟨.slot slot, kind⟩ := by
  rw [elaborate, Setting.name, tryName_of_slot h]
  rfl

theorem head_of_slot (h : s.lookup name = some (i, .slot slot kind origin)) (span : Span)
    (path : List Expr.Segment) : s.head ⟨name, span⟩ path = .ok (some (.value ⟨.slot slot, kind⟩, 1)) := by
  have hlocal : ((s.lookup name).any fun b => !b.2.isHidden) = true := by rw [h]; rfl
  have hstrict : ({ s with strict := true } : Setting).lookup name = some (i, .slot slot kind origin) := h
  unfold head
  dsimp only
  rw [hlocal, tryName_of_slot hstrict]
  show (if (kind.isAny && !true) = true then _ else Except.ok (some (Head.value ⟨.slot slot, kind⟩, 1))) = _
  simp

end Setting

namespace Compile

/-- Where the parameters of a fragment are refused, its definition is. -/
theorem Fails.parameters {P : Diagnostic → Prop} {tag : Tag} {head : DefineHead} {params : List Expr.Segment}
    (hP : ∀ d : Diagnostic, d.fault.classify = .scopeViolation → P d) (hname : tag.name = "define")
    (hread : Arguments.readDefineHead tag.args tag.argsSpan.start = .ok head) (hform : head.form = .body (some params))
    (xs : List Section) (h : Fails c n P (Directive.defineFragment ⟨tag, xs⟩ head.name params)) :
    Fails c n P (Compile.directive .standard tag xs) := by
  refine .directive (D := Directive.define) (by rw [hname]; rfl) ?_
  dsimp only [Directive.define]
  rw [if_neg fun hempty => Expr.readWhole_ne_ok hempty _ _ hread]
  refine .after (arguments_eq_ok hread) ?_
  by_cases hfree : n.scope.letOwner? c.options.caseSensitive head.name = none
  · refine .after (Directive.expectNotLet_eq_ok hfree _) ?_
    rw [hform]
    exact h
  · exact ((Directive.expectNotLet_violates hfree _).imp hP).bind

/-- What a let binds, no directive inside it may bind or take away. -/
theorem violates_of_rebinds {tag : Tag} {name : String} {i slot : Nat} {kind : Kind}
    (howner : ∀ name', sameName c.options.caseSensitive name name' = true →
      n.scope.letOwner? c.options.caseSensitive name' ≠ none)
    (hlookup : ∀ name', sameName c.options.caseSensitive name name' = true →
      n.scope.lookup c.host c.world c.options.caseSensitive name' = some (i, .slot slot kind .letBinding))
    (h : tag.Rebinds c.options.caseSensitive name) (xs : List Section) :
    Violates c n (directive .standard tag xs) := by
  cases h with
  | @define head hname hread hsame =>
    refine .directive (D := Directive.define) (by rw [hname]; rfl) ?_
    dsimp only [Directive.define]
    rw [if_neg fun hempty => Expr.readWhole_ne_ok hempty _ _ hread]
    refine .after (arguments_eq_ok hread) ?_
    exact (Directive.expectNotLet_violates (howner _ hsame) _).bind
  | @parameter head first rest p hname hread hform hlength hdistinct hsame =>
    refine .parameters (fun _ => id) hname hread hform xs ?_
    unfold Directive.defineFragment
    rw [List.drop_eq_nil_of_le hlength]
    exact (Directive.checkParameters_violates (howner _ hsame) hdistinct (by simp)).bind
  | @binding bs b hname hread hb hsame =>
    refine .directive (D := Directive.letBlock) (by rw [hname]; rfl) ?_
    dsimp only [Directive.letBlock]
    rw [if_neg fun hempty => Expr.readWhole_ne_ok hempty _ _ hread]
    refine .after (arguments_eq_ok hread) ?_
    exact (Directive.checkBindings_violates hb (howner _ hsame) _).bind
  | @undef x hname hread hsame =>
    refine .directive (D := Directive.undef) (by rw [hname]; rfl) ?_
    dsimp only [Directive.undef]
    rw [if_neg fun hempty => Expr.readWhole_ne_ok hempty _ _ hread]
    refine .after (arguments_eq_ok hread) ?_
    refine .after (a := c) (m := n) rfl (.after (a := c.options.caseSensitive) (m := n) rfl ?_)
    refine .after (a := n.scope) (m := n) rfl ?_
    rw [hlookup _ hsame]
    exact .throw rfl

/-- No definition of a fragment with a let-bound parameter is taken, whatever is wrong with its other parameters. -/
theorem refuses_parameter {tag : Tag} {head : DefineHead} {params : List Expr.Segment} {p : Expr.Segment}
    (hname : tag.name = "define") (hread : Arguments.readDefineHead tag.args tag.argsSpan.start = .ok head)
    (hform : head.form = .body (some params)) (hp : p ∈ params)
    (howner : n.scope.letOwner? c.options.caseSensitive p.name ≠ none) (xs : List Section) :
    Fails c n Directive.Refused (directive .standard tag xs) := by
  refine .parameters (fun _ => .inl) hname hread hform xs ?_
  unfold Directive.defineFragment
  cases params.drop Directive.parameterLimit with
  | cons => exact .throw (.inr rfl)
  | nil => exact (Directive.checkParameters_refuses hp howner []).bind

/-- What a let binds keeps its meaning wherever compiling a template comes to inside it. -/
theorem let_names_stand (hc : c.Blameless) {source : List Char} {context : Kind} {namespaces : List String}
    (hm : Reaches .standard c (Node.read Directives.standard 0 source) ⟨.init c.host c.world context, namespaces⟩ m)
    {i : Nat} {f : Frame} {name : String} {slot : Nat} {kind : Kind} (hf : m.scope.frame? i = some f)
    (hlet : (name, .slot slot kind .letBinding) ∈ f.bindings.entries) :
    (∀ j g, i < j → m.scope.frame? j = some g →
      ∀ e ∈ g.bindings.entries, sameName c.options.caseSensitive name e.1 = false) ∧
    (∀ name', sameName c.options.caseSensitive name name' = true → ∀ strict st, setting strict c m = .ok (st, m) →
      st.lookup name' = some (i, .slot slot kind .letBinding) ∧
      ∀ span, st.elaborate (.name name' span) = .ok ⟨.slot slot, kind⟩ ∧
        ∀ path, st.head ⟨name', span⟩ path = .ok (some (.value ⟨.slot slot, kind⟩, 1))) ∧
    (∀ tag xs, tag.Rebinds c.options.caseSensitive name →
      ∃ d, directive .standard tag xs c m = .error d ∧ d.fault.classify = .scopeViolation) ∧
    ∀ (tag : Tag) (xs : List Section) (head : DefineHead) (params : List Expr.Segment), ∀ p ∈ params,
      tag.name = "define" → Arguments.readDefineHead tag.args tag.argsSpan.start = .ok head →
      head.form = .body (some params) → sameName c.options.caseSensitive name p.name = true →
      ∃ d, directive .standard tag xs c m = .error d ∧
        (d.fault.classify = .scopeViolation ∨ d.fault.classify = .grammar) := by
  let k := hc.contract (Scope.Guarded c.options.caseSensitive) fun _ _ hmove h => h.move hmove
  have hinternal : ¬ k.admits (.of (.unbalanced "" 0 0) ⟨0, 0⟩) := fun h => h rfl
  have hguarded : m.scope.Guarded c.options.caseSensitive :=
    hm.holds k id hinternal (Node.ordinary_read Directives.standard 0 source)
      (Scope.guarded_init c.host c.world context)
  obtain ⟨before, after, hs, rfl⟩ := Scope.split_of_frame? hf
  have hlookup (name' : String) (hname : sameName c.options.caseSensitive name name' = true) :=
    hguarded.lookup_let hs hlet rfl hname c.host c.world
  have howner (name' : String) (hname : sameName c.options.caseSensitive name name' = true) :
      m.scope.letOwner? c.options.caseSensitive name' ≠ none := by
    intro hnone
    have hfree := hguarded.free_of_letOwner? hnone f (Scope.mem_frames_of_frame? hf) _ hlet rfl
    rw [hname] at hfree
    cases hfree
  refine ⟨fun j g hj hg e he => ?_, fun name' hname strict st hst => ?_, fun tag xs htag => ?_, ?_⟩
  · have hstacked := hguarded.stacked
    rw [hs] at hstacked
    have hinside := (List.pairwise_append.1 hstacked).2.2 g (Scope.mem_of_frame?_gt hs hj hg) f List.mem_cons_self
    exact hinside.apart e he _ hlet rfl
  · have hfound : st.lookup name' = some (after.length, .slot slot kind .letBinding) := by
      cases hst
      exact hlookup name' hname
    exact ⟨hfound, fun span =>
      ⟨Setting.elaborate_of_slot hfound span, fun path => Setting.head_of_slot hfound span path⟩⟩
  · exact violates_of_rebinds howner hlookup htag xs
  · exact fun tag xs head params p hp hdefine hread hform hname =>
      refuses_parameter hdefine hread hform hp (howner _ hname) xs

/-- Inside a block inside a let, where case does not count. -/
theorem let_names_stand_block :
    let engine : Engine := ⟨.standard, { Options.default with caseSensitive := false }, [], .empty, .empty⟩
    let c := engine.compiler "" .empty
    let source := "$$#let Total=\"\"$$$$#block$$$$total$$$$/block$$$$/let$$".toList
    let n : Names := ⟨.init c.host c.world .any, []⟩
    let n' : Names := ⟨(n.scope.push .any .lets).bindSlots 1 .letBinding [("Total", .text)], []⟩
    let m : Names := ⟨n'.scope.push .any .declarations, []⟩
    let undef : Tag := ⟨"undef", ⟨3, 8⟩, "TOTAL", ⟨9, 14⟩, ⟨0, 16⟩⟩
    let twice : Tag := ⟨"define", ⟨3, 9⟩, "f(total, total)", ⟨10, 25⟩, ⟨0, 27⟩⟩
    c.Blameless ∧ Reaches .standard c (Node.read Directives.standard 0 source) n m ∧
      m.scope.lookup c.host c.world false "total" = some (1, .slot 0 .text .letBinding) ∧
      (∃ d, directive .standard undef [] c m = .error d ∧ d.fault.classify = .scopeViolation) ∧
      ∃ d, directive .standard twice [] c m = .error d ∧ d.fault.classify = .scopeViolation := by
  intro engine c source n n' m undef twice
  have hc : c.Blameless := fun _ hf => absurd hf List.not_mem_nil
  let letTag : Tag := ⟨"let", ⟨3, 6⟩, "Total=\"\"", ⟨7, 15⟩, ⟨0, 17⟩⟩
  let blockTag : Tag := ⟨"block", ⟨20, 25⟩, "", ⟨25, 25⟩, ⟨17, 27⟩⟩
  have hnodes : Node.read Directives.standard 0 "$$#let Total=\"\"$$$$#block$$$$total$$$$/block$$$$/let$$".toList =
      [.directive letTag ([] ++ .mk none ⟨17, 46⟩ "$$#block$$$$total$$$$/block$$"
        [.directive blockTag ([] ++ .mk none ⟨27, 36⟩ "$$total$$" [.expr "total" ⟨29, 34⟩] :: [])] :: [])] := by
    with_unfolding_all rfl
  have hread : Arguments.readLetBindings "Total=\"\"" 7 =
      .ok [⟨"Total", ⟨7, 12⟩, .literal (.text "") ⟨13, 15⟩⟩] := by
    with_unfolding_all rfl
  have hundef : Arguments.readVariableName "TOTAL" 9 = .ok ⟨"TOTAL", ⟨9, 14⟩⟩ := by
    with_unfolding_all rfl
  have htwice : Arguments.readDefineHead "f(total, total)" 10 =
      .ok ⟨"f", ⟨10, 11⟩, .body (some ([] ++ ⟨"total", ⟨12, 17⟩⟩ :: [⟨"total", ⟨19, 24⟩⟩]))⟩ := by
    with_unfolding_all rfl
  have hlet (x : Compile Body) (mark : Diagnostic) (hx : x c n' = .error mark) (span : Span) (text : String) :
      directive .standard letTag (sections .standard [] ++ ⟨none, span, text, x⟩ :: sections .standard []) c n =
        .error mark := by
    refine Fails.eq_error (.directive (D := Directive.letBlock) rfl ?_)
    refine .after (m := n) (arguments_eq_ok hread) (.after (a := ()) (m := n) rfl ?_)
    refine .after (a := [⟨.const (.text ""), .text⟩]) (m := n) rfl (.after (m := n) rfl (.after (m := n) rfl ?_))
    exact .bind (.withFrame (.after (a := [0]) (m := n') rfl (.bind ⟨mark, hx, rfl⟩)))
  have hblock (x : Compile Body) (mark : Diagnostic) (hx : x c m = .error mark) (span : Span) (text : String) :
      directive .standard blockTag (sections .standard [] ++ ⟨none, span, text, x⟩ :: sections .standard []) c n' =
        .error mark := by
    refine Fails.eq_error (.directive (D := Directive.block) rfl ?_)
    refine .after (m := n') rfl (.after (m := n') rfl (.after (m := n') rfl ?_))
    exact .bind (.withFrame ⟨mark, hx, rfl⟩)
  have hm : Reaches .standard c (Node.read Directives.standard 0 source) n m := by
    rw [hnodes]
    exact .inside (fun x mark hx => hlet x mark hx _ _) (.inside (fun x mark hx => hblock x mark hx _ _) (.here _ m))
  have hframe : m.scope.frame? 1 = some ⟨.any, .lets, ⟨[("Total", .slot 0 .text .letBinding)]⟩⟩ := rfl
  obtain ⟨-, hmeaning, hrefused, -⟩ := let_names_stand hc hm hframe List.mem_cons_self
  refine ⟨hc, hm, (hmeaning "total" (by decide) true _ rfl).1, hrefused undef [] (.undef rfl hundef (by decide)), ?_⟩
  exact hrefused twice [] (.parameter rfl htwice rfl (by decide) (List.pairwise_singleton _ _) (by decide))

end Compile

end Stencil
